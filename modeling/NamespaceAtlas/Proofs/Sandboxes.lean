-- The sandboxes of gateways. A gateway holds one sandbox at most, and whoever
-- opens a gateway closes it, so no sandbox is left when a part of a discovery
-- is over, however it came out.
import NamespaceAtlas.Proofs.Gateway
import NamespaceAtlas.Proofs.Quiet

namespace NamespaceAtlas

variable {σ φ α : Type}

/-! ## Which sandboxes are alive -/

/-- Something that happens to a sandbox. -/
inductive SandboxEvent where
  | started (pid : Pid)
  | ended (pid : Pid)
  deriving DecidableEq, Repr

/-- The sandboxes that are alive after an event. -/
def SandboxEvent.apply (alive : List Pid) : SandboxEvent → List Pid
  | .started pid => pid :: alive
  | .ended pid => alive.erase pid

/-- The sandboxes that are alive after a course of events. -/
def alive (events : List SandboxEvent) : List Pid := events.foldl SandboxEvent.apply []

theorem alive_concat (l : List SandboxEvent) (e : SandboxEvent) :
    alive (l ++ [e]) = e.apply (alive l) := List.foldl_concat ..

/-- Events that only add to those before, and at no moment leave more than `n` sandboxes alive. -/
def Within (n : Nat) (before after : List SandboxEvent) : Prop :=
  before <+: after ∧
    ∀ moment, before <+: moment → moment <+: after → (alive moment).length ≤ n

namespace Within

variable {n : Nat} {a b c : List SandboxEvent}

theorem refl (h : (alive a).length ≤ n) : Within n a a := by
  refine ⟨List.prefix_refl a, fun moment hle hge => ?_⟩
  rw [hge.eq_of_length (Nat.le_antisymm hge.length_le hle.length_le)]
  exact h

theorem concat {e : SandboxEvent} (h : Within n a b) (he : (alive (b ++ [e])).length ≤ n) :
    Within n a (b ++ [e]) := by
  refine ⟨h.1.trans (List.prefix_append b [e]), fun moment hle hge => ?_⟩
  rcases List.prefix_concat_iff.1 hge with rfl | hge
  · exact he
  · exact h.2 moment hle hge

theorem trans (h : Within n a b) (h' : Within n b c) : Within n a c := by
  refine ⟨h.1.trans h'.1, fun moment hle hge => ?_⟩
  rcases List.prefix_or_prefix_of_prefix hge h'.1 with hmoment | hmoment
  · exact h.2 moment hle hmoment
  · exact h'.2 moment hmoment hge

end Within

/-! ## What a kernel records -/

namespace Kernel

/-- The events that `log` reads off the state of a kernel: a sandbox starts when it is spawned and
ends when it is released, and nothing else happens to one. -/
structure Records (k : Kernel σ φ) (log : σ → List SandboxEvent) : Prop where
  quiet : ∀ P : List SandboxEvent → Prop, k.Quiet fun st => P (log st)
  spawned : ∀ mount user limit st pid, (k.spawn mount user limit st).1 = .ok pid →
    log (k.spawn mount user limit st).2 = log st ++ [.started pid]
  unspawned : ∀ mount user limit st why, (k.spawn mount user limit st).1 = .error why →
    log (k.spawn mount user limit st).2 = log st
  released : ∀ pid st, log (k.release pid st).2 = log st ++ [.ended pid]

end Kernel

/-! ## One gateway -/

namespace Gateway

/-- A gateway shows the mount namespace that its sandbox is attached to. -/
def Attached (g : Gateway) (pid : Pid) : Prop :=
  g.sandbox = some pid ∧ g.pid = some pid ∧ g.root = rootOf pid

/-- A gateway has a sandbox just when one was spawned for it. -/
def Sound (g : Gateway) : Prop :=
  g.spawned = 0 ∧ g.sandbox = none ∨ g.spawned ≠ 0 ∧ ∃ pid, g.Attached pid

end Gateway

namespace Kernel.Records

variable {k : Kernel σ φ} {log : σ → List SandboxEvent} {g : Gateway} {others : List Pid} {st : σ}

theorem within_refl (h : alive (log st) = g.sandbox.toList ++ others) :
    Within (others.length + 2) (log st) (log st) := by
  have hone : g.sandbox.toList.length ≤ 1 := by
    cases g.sandbox <;> simp
  apply Within.refl
  rw [h, List.length_append]
  omega

variable (hk : k.Records log)
include hk

theorem log_close : log (k.close g st).2 = log st ++ g.sandbox.toList.map .ended := by
  unfold close
  cases g.sandbox with
  | none => exact (List.append_nil _).symm
  | some pid => exact hk.released pid st

theorem alive_close : alive (log (k.close g st).2) = (alive (log st)).diff g.sandbox.toList := by
  rw [hk.log_close]
  cases g.sandbox with
  | none => simp
  | some pid => simp [alive_concat, SandboxEvent.apply]

/-- Closing a gateway ends its sandbox and no other. -/
theorem alive_close_of_eq (h : alive (log st) = g.sandbox.toList ++ others) :
    alive (log (k.close g st).2) = others := by
  rw [hk.alive_close, h]
  cases g.sandbox <;> simp

theorem within_close {n : Nat} {before : List SandboxEvent} (h : Within n before (log st)) :
    Within n before (log (k.close g st).2) := by
  have hfew : (alive (log st)).length ≤ n := h.2 (log st) h.1 (List.prefix_refl _)
  have hafter : alive (log (k.close g st).2) = (alive (log st)).diff g.sandbox.toList :=
    hk.alive_close
  rw [hk.log_close] at hafter ⊢
  cases hg : g.sandbox with
  | none => simpa using h
  | some pid =>
    rw [hg] at hafter
    simp only [Option.toList_some, List.map_cons, List.map_nil, List.diff_cons, List.diff_nil]
      at hafter ⊢
    apply h.concat
    rw [hafter]
    exact List.length_erase_le.trans hfew

theorem ends_sandboxed (mount : φ) (user : Option φ) (limit : Span) (st : σ) :
    Ends (k.sandboxed mount user limit) st fun outcome st' =>
      match outcome with
      | .error _ => log st' = log st
      | .ok pid => log st' = log st ++ [.started pid] := by
  unfold sandboxed
  rw [ends_bind]
  change andThen _ _ (.ok (k.spawn mount user limit st).1) (k.spawn mount user limit st).2
  rw [andThen_ok]
  cases hspawn : (k.spawn mount user limit st).1 with
  | ok pid => exact hk.spawned mount user limit st pid hspawn
  | error why =>
    have hlog := hk.unspawned mount user limit st why hspawn
    cases why with
    | failed why => exact hlog
    | file why => exact hlog
    | late => exact hlog

/-- A sandbox takes the place of the one before. For a moment there are both. -/
theorem ends_enterFile (h : alive (log st) = g.sandbox.toList ++ others) (mount : φ)
    (limit : Span) :
    Ends (k.enterFile g mount limit) st fun outcome st' =>
      Within (others.length + 2) (log st) (log st') ∧
      match outcome with
      | .error _ => log st' = log st
      | .ok g' => g'.Sound ∧ g'.spawned = g.spawned + 1 ∧
          alive (log st') = g'.sandbox.toList ++ others := by
  have hone : g.sandbox.toList.length ≤ 1 := by
    cases g.sandbox <;> simp
  have hstay : Within (others.length + 2) (log st) (log st) := within_refl h
  apply Keeps.ends_bind (Keeps.run_lift ((hk.quiet (· = log st)).userToEnter mount)) rfl
  · intro why st' hlog
    rw [hlog]
    exact ⟨hstay, rfl⟩
  · intro user st' hlog
    rw [ends_bind]
    refine (hk.ends_sandboxed mount user limit st').mono ?_
    rw [hlog]
    rintro (why | pid) st'' hlog'
    · dsimp only at hlog'
      rw [andThen_error, hlog']
      exact ⟨hstay, rfl⟩
    · have halive : alive (log st'') = pid :: (g.sandbox.toList ++ others) := by
        rw [hlog', alive_concat, h]
        rfl
      have hboth : Within (others.length + 2) (log st) (log st'') := by
        rw [hlog']
        apply hstay.concat
        rw [← hlog', halive, List.length_cons, List.length_append]
        omega
      have hafter : alive (log (k.close g st'').2) = pid :: others := by
        rw [hk.alive_close, halive]
        cases g.sandbox with
        | none => simp
        | some old =>
          simp only [Option.toList_some, List.diff_cons, List.diff_nil, List.cons_append,
            List.nil_append, List.erase_cons]
          split <;> simp_all
      exact ⟨hk.within_close hboth, Or.inr ⟨Nat.succ_ne_zero _, pid, rfl, rfl, rfl⟩, rfl, hafter⟩

/-! ## One hop after the other -/

theorem ends_enterNext (h : alive (log st) = g.sandbox.toList ++ others) (limit : Span) (p : Path) :
    Ends (k.enterNext g limit p) st fun outcome st' =>
      Within (others.length + 2) (log st) (log st') ∧
      match outcome with
      | .error _ => log st' = log st
      | .ok g' => g'.Sound ∧ g'.spawned = g.spawned + 1 ∧
          alive (log st') = g'.sandbox.toList ++ others := by
  have hq : k.Quiet fun st' => log st' = log st := hk.quiet (· = log st)
  have hstay : Within (others.length + 2) (log st) (log st) := within_refl h
  apply Keeps.ends_bind (hq.resolveThrough g p) rfl
  · intro why st' hlog
    rw [hlog]
    exact ⟨hstay, rfl⟩
  · intro path st' hlog
    apply Keeps.ends_bind (hq.openedMount g.reference path) hlog
    · intro why st' hlog
      rw [hlog]
      exact ⟨hstay, rfl⟩
    · intro mount st' hlog
      rw [← hlog] at h ⊢
      exact hk.ends_enterFile h mount limit

theorem ends_enterRest (h : alive (log st) = g.sandbox.toList ++ others) (hg : g.Sound)
    (limit : Span) (l : List Path) :
    Ends (k.enterRest g limit l) st fun outcome st' =>
      Within (others.length + 2) (log st) (log st') ∧
      match outcome with
      | .error _ => alive (log st') = others
      | .ok g' => g'.Sound ∧ g'.spawned = g.spawned + l.length ∧
          alive (log st') = g'.sandbox.toList ++ others := by
  induction l generalizing g st with
  | nil => exact ⟨within_refl h, hg, rfl, h⟩
  | cons p rest ih =>
    unfold enterRest
    rw [ends_bind, ends_caught]
    refine Ends.mono (hk.ends_enterNext h limit p) ?_
    rintro outcome st' ⟨hwithin, hafter⟩
    cases outcome with
    | error why =>
      dsimp only at hafter
      refine ⟨hk.within_close hwithin, ?_⟩
      exact hk.alive_close_of_eq (hafter ▸ h)
    | ok g' =>
      obtain ⟨hg', hspawned, halive⟩ := hafter
      rw [andThen_ok]
      refine Ends.mono (ih halive hg') ?_
      rintro outcome st'' ⟨hwithin', hafter⟩
      refine ⟨hwithin.trans hwithin', ?_⟩
      cases outcome with
      | error why => exact hafter
      | ok g'' =>
        obtain ⟨hg'', hspawned', halive'⟩ := hafter
        refine ⟨hg'', ?_, halive'⟩
        rw [hspawned', hspawned, List.length_cons]
        omega

/-! ## Whole references -/

theorem ends_enterFirst (limit : Span) (reference : Reference) (p : Path) (st : σ) :
    Ends (k.enterFirst (.own reference) limit p) st fun outcome st' =>
      Within ((alive (log st)).length + 2) (log st) (log st') ∧
      match outcome with
      | .error _ => log st' = log st
      | .ok g => g.Sound ∧ alive (log st') = g.sandbox.toList ++ alive (log st) ∧
          (p.IsMountOfProcess → g.spawned = 0) ∧ (¬ p.IsMountOfProcess → g.spawned = 1) := by
  have hq : k.Quiet fun st' => log st' = log st := hk.quiet (· = log st)
  have hstay : Within ((alive (log st)).length + 2) (log st) (log st) := .refl (by omega)
  unfold enterFirst
  cases hfirst : k.processOfFirst? p with
  | some pid =>
    have hp : p.IsMountOfProcess := (k.processOfFirst?_isSome p).1 (by rw [hfirst]; rfl)
    apply Keeps.ends_bind (hq.openedMount _ p) rfl
    · intro why st' hlog
      rw [hlog]
      exact ⟨hstay, rfl⟩
    · intro _ st' hlog
      rw [ends_pure, hlog]
      exact ⟨hstay, Or.inl ⟨rfl, rfl⟩, rfl, fun _ => rfl, fun hnot => absurd hp hnot⟩
  | none =>
    have hp : ¬ p.IsMountOfProcess := by
      rw [← k.processOfFirst?_isSome p, hfirst]
      exact Bool.false_ne_true
    apply Keeps.ends_bind (hq.initialPath p) rfl
    · intro why st' hlog
      rw [hlog]
      exact ⟨hstay, rfl⟩
    · intro path st₁ hlog
      apply Keeps.ends_bind (hq.openedMount _ path) hlog
      · intro why st₂ hlog
        rw [hlog]
        exact ⟨hstay, rfl⟩
      · intro mount st₂ hlog
        have hown : alive (log st₂) = (Gateway.own reference).sandbox.toList ++ alive (log st) := by
          rw [hlog]
          rfl
        refine Ends.mono (hk.ends_enterFile hown mount limit) ?_
        rintro outcome st₃ ⟨hwithin, hafter⟩
        rw [hlog] at hwithin hafter
        refine ⟨hwithin, ?_⟩
        cases outcome with
        | error why => exact hafter
        | ok g =>
          obtain ⟨hg, hspawned, halive⟩ := hafter
          exact ⟨hg, halive, fun h => absurd h hp, fun _ => hspawned⟩

/-- How a gateway comes out: with an error and no sandbox, or with one sandbox where any was
spawned. On the way there are two at most. -/
theorem ends_gateway (reference : Reference) (limit : Span) (st : σ) :
    Ends (k.gateway reference limit) st fun outcome st' =>
      Within ((alive (log st)).length + 2) (log st) (log st') ∧
      match outcome with
      | .error _ => alive (log st') = alive (log st)
      | .ok g => g.Sound ∧ alive (log st') = g.sandbox.toList ++ alive (log st) ∧
          ∃ p rest, reference.paths = p :: rest ∧
            (p.IsMountOfProcess → g.spawned = rest.length) ∧
            (¬ p.IsMountOfProcess → g.spawned = rest.length + 1) := by
  have hstay : Within ((alive (log st)).length + 2) (log st) (log st) := .refl (by omega)
  unfold gateway
  cases hpaths : reference.paths with
  | nil =>
    have hfault : reference.fault? = some .noPath := by
      unfold Reference.fault?
      rw [hpaths]
    rw [hfault]
    exact ⟨hstay, rfl⟩
  | cons p rest =>
    cases hfault : reference.fault? with
    | some why => exact ⟨hstay, rfl⟩
    | none =>
      dsimp only
      rw [ends_bind]
      refine Ends.mono (hk.ends_enterFirst limit reference p st) ?_
      rintro outcome st₁ ⟨hwithin, hafter⟩
      cases outcome with
      | error why => exact ⟨hwithin, congrArg alive hafter⟩
      | ok g =>
        obtain ⟨hg, halive, hfirst, hother⟩ := hafter
        rw [andThen_ok]
        refine Ends.mono (hk.ends_enterRest halive hg limit rest) ?_
        rintro outcome st₂ ⟨hwithin', hafter⟩
        refine ⟨hwithin.trans hwithin', ?_⟩
        cases outcome with
        | error why => exact hafter
        | ok g' =>
          obtain ⟨hg', hspawned, halive'⟩ := hafter
          refine ⟨hg', halive', p, rest, rfl, fun hp => ?_, fun hp => ?_⟩
          · rw [hspawned, hfirst hp]
            omega
          · rw [hspawned, hother hp]
            omega

/-- A gateway that came out holds its sandbox and leaves the others alone; one that did not has
left none. -/
def Leaves (log : σ → List SandboxEvent) (others : List Pid) : Except Error Gateway → σ → Prop
  | .error _, st => alive (log st) = others
  | .ok g, st => alive (log st) = g.sandbox.toList ++ others

theorem leaves_gateway (h : alive (log st) = others) (reference : Reference) (limit : Span) :
    Ends (k.gateway reference limit) st (Leaves log others) := by
  subst h
  refine Ends.mono (hk.ends_gateway reference limit st) ?_
  rintro (why | g) st' ⟨_, hafter⟩
  · exact hafter
  · exact hafter.2.1

theorem leaves_gatewayOf (h : alive (log st) = others) (n : Namespace) (t : ProcessTable)
    (limit : Span) : Ends (k.gatewayOf n t limit) st (Leaves log others) := by
  unfold gatewayOf
  by_cases hmount : n.species = .mount
  · simp only [hmount, ne_eq, not_true, if_false]
    split
    · exact h
    · exact hk.leaves_gateway h n.reference limit
  · simp only [hmount, ne_eq, not_false_eq_true, if_true]
    exact h

/-- What is run with a gateway and leaves its sandbox alone has left none in the end. -/
theorem alive_through {m : Ask σ α}
    (hm : Keeps (fun st => alive (log st) = g.sandbox.toList ++ others) m.run)
    (h : alive (log st) = g.sandbox.toList ++ others) :
    Ends (k.through g m) st fun _ st' => alive (log st') = others := by
  unfold through
  rw [ends_bind, ends_caught]
  exact hk.alive_close_of_eq (hm st h)

theorem keeps_openedReference (reference : Reference) (limit : Span) :
    Keeps (fun st => alive (log st) = others) (k.openedReference reference limit).run := by
  have hq := hk.quiet fun l => alive l = others
  unfold openedReference
  split
  · exact Keeps.run_throw
  · exact Keeps.run_throw
  · exact Keeps.run_bind (hq.initialPath _) hq.opened
  · apply Keeps.of_ends
    intro st h
    rw [ends_bind]
    refine Ends.mono (hk.leaves_gateway h _ limit) ?_
    rintro (why | g) st' hafter
    · exact hafter
    · exact hk.alive_through ((hk.quiet fun l => alive l = _).openThrough g _) hafter

end Kernel.Records

end NamespaceAtlas

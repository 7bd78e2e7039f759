-- How many sandboxes are started for a gateway. One that comes out tells of them
-- all. One that does not tells nothing, though some may have been started on
-- the way if the reference has more than one path.
import NamespaceAtlas.Proofs.Sandboxes

namespace NamespaceAtlas

variable {σ φ α : Type}

/-- How many sandboxes were started in a course of events. -/
def startedIn (events : List SandboxEvent) : Nat :=
  events.countP fun e => match e with
    | .started _ => true
    | .ended _ => false

theorem startedIn_started (l : List SandboxEvent) (pid : Pid) :
    startedIn (l ++ [.started pid]) = startedIn l + 1 := List.countP_append

theorem startedIn_ended (l : List SandboxEvent) (pids : List Pid) :
    startedIn (l ++ pids.map .ended) = startedIn l := by
  unfold startedIn
  rw [List.countP_append, List.countP_map]
  exact congrArg (_ + ·) (congrFun List.countP_false pids)

/-! ## One gateway -/

namespace Kernel.Records

variable {k : Kernel σ φ} {log : σ → List SandboxEvent} {g : Gateway} {st : σ} {base : Nat}

/-- A gateway tells of all sandboxes that were started for it. Where there is none in the end,
some may have been started all the same. -/
def Tells (log : σ → List SandboxEvent) (base : Nat) : Except Error Gateway → σ → Prop
  | .ok g, st => startedIn (log st) = base + g.spawned
  | .error _, st => base ≤ startedIn (log st)

theorem Tells.of_spawned (h : startedIn (log st) = base + g.spawned) (why : Error) :
    Tells log base (.error why) st := by
  change base ≤ startedIn (log st)
  rw [h]
  exact Nat.le_add_right _ _

variable (hk : k.Records log)
include hk

theorem startedIn_close : startedIn (log (k.close g st).2) = startedIn (log st) := by
  rw [hk.log_close, startedIn_ended]

theorem keeps_started_through {m : Ask σ α} {n : Nat}
    (hm : Keeps (fun st => startedIn (log st) = n) m.run) (g : Gateway) :
    Keeps (fun st => startedIn (log st) = n) (k.through g m).run := by
  apply Keeps.run_bind (Keeps.run_lift hm)
  intro answer
  have hclose : Keeps (fun st => startedIn (log st) = n) (k.close g) := fun st h =>
    hk.startedIn_close.trans h
  exact Keeps.run_bind (Keeps.run_lift hclose) fun _ st h => h

theorem tells_enterFile (h : startedIn (log st) = base + g.spawned) (mount : φ) (limit : Span) :
    Ends (k.enterFile g mount limit) st (Tells log base) := by
  apply Keeps.ends_bind (P := fun st => startedIn (log st) = base + g.spawned)
    (Keeps.run_lift ((hk.quiet fun l => startedIn l = _).userToEnter mount)) h
  · exact fun why st h => .of_spawned h why
  · intro user st h
    rw [ends_bind]
    refine (hk.ends_sandboxed mount user limit st).mono ?_
    rintro (why | pid) st' hlog
    · exact .of_spawned ((congrArg startedIn hlog).trans h) why
    · change startedIn (log (k.close g st').2) = base + (g.spawned + 1)
      rw [hk.startedIn_close, hlog, startedIn_started, h, Nat.add_assoc]

theorem tells_enterNext (h : startedIn (log st) = base + g.spawned) (limit : Span) (p : Path) :
    Ends (k.enterNext g limit p) st (Tells log base) := by
  have hq := hk.quiet fun l => startedIn l = base + g.spawned
  apply Keeps.ends_bind (hq.resolveThrough g p) h fun why st h => .of_spawned h why
  intro path st h
  apply Keeps.ends_bind (hq.openedMount g.reference path) h fun why st h => .of_spawned h why
  intro mount st h
  exact hk.tells_enterFile h mount limit

theorem tells_enterRest (limit : Span) (l : List Path) :
    ∀ (g : Gateway) (st : σ), startedIn (log st) = base + g.spawned →
      Ends (k.enterRest g limit l) st (Tells log base) := by
  induction l with
  | nil => exact fun g st h => h
  | cons p rest ih =>
    intro g st h
    unfold enterRest
    rw [ends_bind, ends_caught]
    refine (hk.tells_enterNext h limit p).mono ?_
    rintro (why | g') st' hafter
    · change base ≤ startedIn (log (k.close g st').2)
      rw [hk.startedIn_close]
      exact hafter
    · exact ih g' st' hafter

theorem tells_enterFirst (limit : Span) (reference : Reference) (p : Path) (st : σ) :
    Ends (k.enterFirst (.own reference) limit p) st (Tells log (startedIn (log st))) := by
  have hq := hk.quiet fun l => startedIn l = startedIn (log st)
  have herror : ∀ (why : Error) st', startedIn (log st') = startedIn (log st) →
      Tells log (startedIn (log st)) (.error why) st' := fun _ _ h => h.ge
  unfold enterFirst
  split
  · apply Keeps.ends_bind (hq.openedMount _ p) rfl herror
    exact fun _ st h => h
  · apply Keeps.ends_bind (hq.initialPath p) rfl herror
    intro path st h
    apply Keeps.ends_bind (hq.openedMount _ path) h herror
    intro mount st h
    exact hk.tells_enterFile h mount limit

/-- Of a reference of one path at most, no sandbox is lost on the way. -/
theorem ends_gateway_counted (reference : Reference) (limit : Span) (st : σ) :
    Ends (k.gateway reference limit) st fun outcome st' =>
      Tells log (startedIn (log st)) outcome st' ∧
        (reference.length ≤ 1 → ∀ why, outcome = .error why →
          startedIn (log st') = startedIn (log st)) := by
  have hstay : Tells log (startedIn (log st)) (.error (reference.invalid .noPath)) st := Nat.le_refl _
  unfold gateway
  cases hpaths : reference.paths with
  | nil =>
    have hfault : reference.fault? = some .noPath := by
      unfold Reference.fault?
      rw [hpaths]
    rw [hfault]
    exact ⟨hstay, fun _ _ _ => rfl⟩
  | cons p rest =>
    cases hfault : reference.fault? with
    | some why => exact ⟨hstay, fun _ _ _ => rfl⟩
    | none =>
      dsimp only
      rw [ends_bind]
      refine ((hk.tells_enterFirst limit reference p st).and
        (hk.ends_enterFirst limit reference p st)).mono ?_
      rintro (why | g) st' ⟨htells, _, hafter⟩
      · exact ⟨htells, fun _ _ _ => congrArg startedIn hafter⟩
      · rw [andThen_ok]
        cases rest with
        | nil => exact ⟨htells, fun _ _ herror => nomatch herror⟩
        | cons q rest =>
          refine (hk.tells_enterRest limit (q :: rest) g st' htells).mono fun _ _ htells => ?_
          refine ⟨htells, fun hone => ?_⟩
          have hlength : reference.length = rest.length + 2 := congrArg List.length hpaths
          omega

/-- The gateway into a namespace that was found tells as much. -/
theorem ends_gatewayOf_counted (n : Namespace) (t : ProcessTable) (limit : Span) (st : σ) :
    Ends (k.gatewayOf n t limit) st fun outcome st' =>
      Tells log (startedIn (log st)) outcome st' ∧
        (n.reference.length ≤ 1 → ∀ why, outcome = .error why →
          startedIn (log st') = startedIn (log st)) := by
  unfold gatewayOf
  by_cases hmount : n.species = .mount
  · simp only [hmount, ne_eq, not_true, if_false]
    split
    · exact ⟨rfl, fun _ _ herror => nomatch herror⟩
    · exact hk.ends_gateway_counted n.reference limit st
  · simp only [hmount, ne_eq, not_false_eq_true, if_true]
    exact ⟨Nat.le_refl _, fun _ _ _ => rfl⟩

/-- To open what a reference of one path addresses takes no sandbox. -/
theorem ends_openedReference_counted (reference : Reference) (limit : Span) (st : σ) :
    Ends (k.openedReference reference limit) st fun _ st' =>
      startedIn (log st) ≤ startedIn (log st') ∧
        (reference.length ≤ 1 → startedIn (log st') = startedIn (log st)) := by
  have hq := hk.quiet fun l => startedIn l = startedIn (log st)
  unfold openedReference
  split
  · exact ⟨Nat.le_refl _, fun _ => rfl⟩
  · exact ⟨Nat.le_refl _, fun _ => rfl⟩
  · suffices hsame : Ends _ st fun _ st' => startedIn (log st') = startedIn (log st) from
      hsame.mono fun _ _ h => ⟨h.ge, fun _ => h⟩
    exact Keeps.run_bind (hq.initialPath _) hq.opened st rfl
  · rename_i p q rest _ hpaths
    have hlength : reference.length = rest.length + 2 := congrArg List.length hpaths
    rw [ends_bind]
    refine (hk.ends_gateway_counted _ limit st).mono ?_
    rintro (why | g) st' ⟨htells, _⟩
    · exact ⟨htells, fun hone => by omega⟩
    · have hspawned : startedIn (log st') = startedIn (log st) + g.spawned := htells
      have hq := hk.quiet fun l => startedIn l = startedIn (log st')
      rw [andThen_ok]
      suffices hsame : Ends _ st' fun _ st'' => startedIn (log st'') = startedIn (log st') from
        hsame.mono fun _ st'' h => ⟨by omega, fun hone => by omega⟩
      exact hk.keeps_started_through (hq.openThrough g _) g st' rfl

end Kernel.Records

end NamespaceAtlas

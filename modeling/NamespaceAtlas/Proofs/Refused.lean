-- References that are refused. What is wrong with the paths themselves is seen
-- before anything is done. That a path leads to no mount namespace is seen only
-- when the file is opened, and for a path inside another mount namespace that is
-- after a sandbox has been started for every path before it.
import NamespaceAtlas.Proofs.Discovery.Counted

namespace NamespaceAtlas

variable {σ φ α β : Type}

/-! ## Faults that only an open file shows -/

/-- What only the file at a path can show: that it is no mount namespace. -/
def ReferenceFault.OfFile : ReferenceFault → Prop
  | .noNamespace _ => True
  | .otherSpecies _ s => s ≠ .mount
  | _ => False

/-- An error that finds fault with a reference names `reference`, and the fault is one of a file. -/
def Error.BlamesFile (reference : Reference) : Error → Prop
  | .badReference text why => text = reference.text ∧ why.OfFile
  | _ => True

/-- A question of which no error blames a reference but for a file that is no mount namespace. -/
def Ask.BlamesFile (reference : Reference) (m : Ask σ α) : Prop :=
  ∀ st, Ends m st (barring (Error.BlamesFile reference) fun _ _ => True)

namespace Ask.BlamesFile

variable {reference : Reference}

theorem sure {m : StateM σ α} : Ask.BlamesFile reference (Ask.sure m) := fun _ => trivial

theorem file {m : StateM σ (Except FileFault α)} : Ask.BlamesFile reference (Ask.file m) := by
  intro st
  rw [ends_file]
  cases (m st).1 <;> trivial

theorem bind {m : Ask σ α} {f : α → Ask σ β} (hm : Ask.BlamesFile reference m)
    (hf : ∀ a, Ask.BlamesFile reference (f a)) : Ask.BlamesFile reference (m >>= f) := by
  intro st
  rw [ends_bind]
  refine (hm st).mono ?_
  rintro (why | a) st' hafter
  · exact hafter
  · exact hf a st'

end Ask.BlamesFile

namespace Kernel

variable (k : Kernel σ φ) (g : Gateway) (limit : Span) (p : Path)

theorem blamesFile_resolveIn (reference : Reference) (root : Path) :
    Ask.BlamesFile reference (k.resolveIn root p) := .bind .file fun _ _ => trivial

theorem blamesFile_resolveThrough (reference : Reference) :
    Ask.BlamesFile reference (k.resolveThrough g p) := by
  refine .bind ?_ fun path => k.blamesFile_resolveIn _ _ _
  unfold absolute
  split
  · exact fun _ => trivial
  · exact .bind .file fun _ _ => trivial

theorem blamesFile_openedMount (reference : Reference) :
    Ask.BlamesFile reference (k.openedMount reference p) := by
  refine .bind .file fun f => .bind .sure fun species st => ?_
  rcases species with why | s
  · exact ⟨rfl, trivial⟩
  · cases s with
    | mount => trivial
    | _ => exact ⟨rfl, nofun⟩

/-- That a sandbox does not start is no fault of the reference. -/
theorem blamesFile_enterFile (mount : φ) :
    Ask.BlamesFile g.reference (k.enterFile g mount limit) := by
  refine .bind .sure fun user => .bind (.bind .sure fun started st => ?_) fun pid =>
    .bind .sure fun _ _ => trivial
  rcases started with (_ | _ | _) | _ <;> trivial

theorem blamesFile_enterNext : Ask.BlamesFile g.reference (k.enterNext g limit p) :=
  .bind (k.blamesFile_resolveThrough _ _ _) fun _ =>
    .bind (k.blamesFile_openedMount _ _) fun _ => k.blamesFile_enterFile _ _ _

theorem blamesFile_enterFirst : Ask.BlamesFile g.reference (k.enterFirst g limit p) := by
  unfold enterFirst
  split
  · exact .bind (k.blamesFile_openedMount _ _) fun _ _ => trivial
  · refine .bind ?_ fun path =>
      .bind (k.blamesFile_openedMount _ _) fun _ => k.blamesFile_enterFile _ _ _
    unfold initialPath
    split
    · exact fun _ => trivial
    · refine .bind (.bind .sure fun target st => ?_) fun root => k.blamesFile_resolveIn _ _ _
      cases target <;> trivial

/-- A reference with something wrong is refused, and nothing is asked or started for it. -/
theorem gateway_of_fault {reference : Reference} {why : ReferenceFault}
    (h : reference.fault? = some why) (st : σ) :
    (k.gateway reference limit).run st = (.error (reference.invalid why), st) := by
  unfold gateway
  rw [h]
  rfl

/-- How many sandboxes it takes to get behind paths: one for each, but none for a first path that
leads through the root of a process. -/
def sandboxesFor : List Path → Nat
  | [] => 0
  | p :: rest => if (k.processOfFirst? p).isSome then rest.length else rest.length + 1

/-! ## How many sandboxes were started before a refusal -/

namespace Records

variable {k} {g} {log : σ → List SandboxEvent} {st : σ} {base : Nat} {others : List Pid}

/-- A refusal on the way: some path leads to no mount namespace, and `started` sandboxes and one
for each path before it have been started. -/
def RefusedAt (log : σ → List SandboxEvent) (reference : Reference) (l : List Path)
    (started : Nat) : Except Error α → σ → Prop
  | .error (.badReference text why), st => text = reference.text ∧ why.OfFile ∧
      ∃ before p after, l = before ++ p :: after ∧
        startedIn (log st) = started + before.length
  | _, _ => True

theorem RefusedAt.here {x : Except Error α} {reference : Reference} {p : Path} {rest : List Path}
    (h : barring (Error.BlamesFile reference) (fun _ _ => True) x st)
    (hstarted : startedIn (log st) = base) :
    RefusedAt log reference (p :: rest) base x st := by
  rcases x with why | _
  · cases why with
    | badReference text why => exact ⟨h.1, h.2, [], p, rest, rfl, hstarted⟩
    | _ => trivial
  · trivial

variable (hk : k.Records log)
include hk

theorem refusedAt_enterRest (h : alive (log st) = g.sandbox.toList ++ others)
    (hstarted : startedIn (log st) = base + g.spawned) (l : List Path) :
    Ends (k.enterRest g limit l) st (RefusedAt log g.reference l (base + g.spawned)) := by
  induction l generalizing g st with
  | nil => trivial
  | cons p rest ih =>
    unfold enterRest
    rw [ends_bind, ends_caught]
    have hnext : Ends (k.enterNext g limit p) st (Leads g.reference) :=
      leads_bind fun _ _ => leads_bind fun _ _ => leads_enterFile _
    refine ((hk.ends_enterNext h limit p).and ((hk.tells_enterNext hstarted limit p).and
      (hnext.and (k.blamesFile_enterNext g limit p st)))).mono ?_
    rintro (why | g') st' ⟨⟨_, hafter⟩, htells, hleads, hblames⟩
    · -- Closing the gateway ends a sandbox and starts none.
      have hclosed : startedIn (log (k.close g st').2) = base + g.spawned := by
        rw [hk.startedIn_close, hafter, hstarted]
      exact RefusedAt.here hblames hclosed
    · obtain ⟨_, hspawned, halive⟩ := hafter
      change g'.reference = g.reference at hleads
      rw [andThen_ok]
      refine (ih halive htells).mono ?_
      rintro (why | _) st'' hrest
      · cases why with
        | badReference text why =>
          obtain ⟨htext, hfile, before, q, after, hl, hcount⟩ := hrest
          refine ⟨hleads ▸ htext, hfile, p :: before, q, after, by rw [hl]; rfl, ?_⟩
          rw [hcount, hspawned, List.length_cons]
          omega
        | _ => trivial
      · trivial

/-- A reference with nothing wrong in its paths is refused at a path that leads to no mount
namespace. The sandboxes of the paths before it have been started by then. -/
theorem refused_gateway {reference : Reference} (hfault : reference.fault? = none) :
    Ends (k.gateway reference limit) st fun outcome st' =>
      ∀ text why, outcome = .error (.badReference text why) →
        text = reference.text ∧ why.OfFile ∧ ∃ before p after,
          reference.paths = before ++ p :: after ∧
            startedIn (log st') = startedIn (log st) + k.sandboxesFor before := by
  unfold gateway
  rw [hfault]
  cases hpaths : reference.paths with
  | nil =>
    unfold Reference.fault? at hfault
    rw [hpaths] at hfault
    cases hfault
  | cons p rest =>
    dsimp only
    rw [ends_bind]
    refine ((hk.ends_enterFirst limit reference p st).and ((hk.tells_enterFirst limit reference p
      st).and ((leads_enterFirst p).and (k.blamesFile_enterFirst (.own reference) limit p
        st)))).mono ?_
    rintro (why | g) st' ⟨⟨_, hafter⟩, htells, hleads, hblames⟩
    · rintro text why ⟨⟩
      exact ⟨hblames.1, hblames.2, [], p, rest, rfl, congrArg startedIn hafter⟩
    · obtain ⟨_, halive, hthrough, hother⟩ := hafter
      change g.reference = reference at hleads
      rw [andThen_ok]
      refine (hk.refusedAt_enterRest limit halive htells rest).mono ?_
      rintro _ st'' hrest text why rfl
      obtain ⟨htext, hfile, before, q, after, hl, hcount⟩ := hrest
      refine ⟨hleads ▸ htext, hfile, p :: before, q, after, by rw [hl]; rfl, ?_⟩
      rw [hcount]
      by_cases hp : p.IsMountOfProcess
      · simp [sandboxesFor, k.processOfFirst?_isSome, hp, hthrough hp]
      · simp [sandboxesFor, k.processOfFirst?_isSome, hp, hother hp]
        omega

end Records

end Kernel

/-! ## The law -/

/-- A refusal leaves no sandbox behind. It comes before anything is done where the paths
themselves are at fault, and else after the sandboxes of all paths before the one that leads to no
mount namespace have been started; so none has been if that is the first. -/
theorem a_refusal_comes_after_the_paths_before (k : Kernel σ φ) (log : σ → List SandboxEvent)
    (hk : k.Records log) (reference : Reference) (limit : Span) (st st' : σ) (text : String)
    (why : ReferenceFault)
    (hrefused : (k.gateway reference limit).run st = (.error (.badReference text why), st')) :
    text = reference.text ∧ alive (log st') = alive (log st) ∧
      (reference.fault? = some why ∧ st' = st ∨
        reference.fault? = none ∧ why.OfFile ∧ ∃ before p after,
          reference.paths = before ++ p :: after ∧
            startedIn (log st') = startedIn (log st) + k.sandboxesFor before) := by
  cases hfault : reference.fault? with
  | some fault =>
    rw [k.gateway_of_fault limit hfault] at hrefused
    cases hrefused
    exact ⟨rfl, rfl, .inl ⟨rfl, rfl⟩⟩
  | none =>
    obtain ⟨_, halive⟩ := ends_iff_run.1 (hk.ends_gateway reference limit st) _ _ hrefused
    obtain ⟨htext, hway⟩ :=
      ends_iff_run.1 (hk.refused_gateway limit hfault) _ _ hrefused _ _ rfl
    exact ⟨htext, halive, .inr ⟨rfl, hway⟩⟩

/-- Inside a mount namespace that is mounted in our own, a user namespace is no mount namespace. -/
theorem gateway_nestedHost :
    (nestedHost.gateway ⟨["/proc/b", "/x"]⟩ (.ofSeconds 5)).run [] =
      (.error (.badReference "/proc/b ▸ /x" (.otherSpecies "/proc/100/root/x" .user)),
        [.started ⟨100⟩, .ended ⟨100⟩]) := by
  have hfault : Reference.fault? ⟨["/proc/b", "/x"]⟩ = none := by decide
  have hfirst : Ends (nestedHost.enterFirst (.own ⟨["/proc/b", "/x"]⟩) (.ofSeconds 5) "/proc/b") []
      fun outcome st =>
        outcome = .ok { nestedGateway ⟨100⟩ with reference := ⟨["/proc/b", "/x"]⟩ } ∧
          st = [.started ⟨100⟩] :=
    ends_of_toOption (by decide +kernel)
  have hroot : (Gateway.rootOf ⟨100⟩).below (Path.root.join "/x").steps = "/proc/100/root/x" := by
    decide +kernel
  have htext : (⟨["/proc/b", "/x"]⟩ : Reference).text = "/proc/b ▸ /x" := by decide +kernel
  suffices h : Ends (nestedHost.gateway ⟨["/proc/b", "/x"]⟩ (.ofSeconds 5)) [] fun outcome st =>
      outcome = .error (.badReference "/proc/b ▸ /x" (.otherSpecies "/proc/100/root/x" .user)) ∧
        st = [.started ⟨100⟩, .ended ⟨100⟩] from Prod.ext h.1 h.2
  unfold Kernel.gateway
  rw [hfault]
  dsimp only
  rw [ends_bind]
  refine hfirst.mono ?_
  rintro _ _ ⟨rfl, rfl⟩
  rw [andThen_ok]
  unfold Kernel.enterRest Kernel.enterNext
  rw [resolveThrough_nestedHost (by decide), pure_bind]
  refine ⟨?_, rfl⟩
  rw [← hroot, ← htext]
  rfl

/-- One sandbox is started for such a reference, and ended again. -/
theorem a_refusal_inside_a_mount_takes_a_sandbox :
    nestedHost.Records id ∧
    ∃ before p after, (⟨["/proc/b", "/x"]⟩ : Reference).paths = before ++ p :: after ∧
      startedIn [.started ⟨100⟩, .ended ⟨100⟩] = 0 + nestedHost.sandboxesFor before ∧
      alive [.started ⟨100⟩, .ended ⟨100⟩] = [] := by
  obtain ⟨_, halive, ⟨hfault, _⟩ | ⟨_, _, before, p, after, hpaths, hcount⟩⟩ :=
    a_refusal_comes_after_the_paths_before nestedHost id records_nestedHost ⟨["/proc/b", "/x"]⟩
      (.ofSeconds 5) [] _ _ _ gateway_nestedHost
  · exact absurd hfault (by decide)
  · exact ⟨records_nestedHost, before, p, after, hpaths, hcount, halive⟩

/-- So a reference may be refused when a sandbox has been started for it. -/
theorem a_refusal_may_follow_a_sandbox :
    nestedHost.Records id ∧
    ∃ why st', (nestedHost.gateway ⟨["/proc/b", "/x"]⟩ (.ofSeconds 5)).run [] =
        (.error (.badReference "/proc/b ▸ /x" why), st') ∧
      startedIn (id st') = startedIn (id []) + 1 :=
  ⟨records_nestedHost, _, _, gateway_nestedHost, by decide⟩

end NamespaceAtlas

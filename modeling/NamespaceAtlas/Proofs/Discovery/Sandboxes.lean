-- The sandboxes of a discovery. Each gateway that a phase opens is closed in
-- the same phase, before the time can be up again, so a phase leaves the
-- sandboxes as they were.
import NamespaceAtlas.Proofs.Sandboxes
import NamespaceAtlas.Proofs.Discovery.Plan

namespace NamespaceAtlas

variable {σ φ α : Type}

namespace Kernel.Records

variable {k : Kernel σ φ} {log : σ → List SandboxEvent} {g : Gateway} {others : List Pid}
  (hk : k.Records log)
include hk

/-! ## Phases with a gateway -/

theorem alive_throughGateway {m : Phase σ α} {r : Run σ}
    (hm : Keeps (fun r => alive (log r.kernel) = g.sandbox.toList ++ others) m.run)
    (h : alive (log r.kernel) = g.sandbox.toList ++ others) :
    Ends (k.throughGateway g m) r fun _ r' => alive (log r'.kernel) = others := by
  unfold throughGateway
  rw [ends_bind, ends_lift, andThen_ok, ends_bind, ends_sure, andThen_ok]
  exact hk.alive_close_of_eq (hm r h)

/-- A phase that tries a gateway leaves no sandbox, if it closes the gateway where there is one. -/
theorem keeps_gatewayOf {n : Namespace} {t : ProcessTable} {limit : Span}
    {f : Except Error Gateway → Phase σ α}
    (herror : ∀ why, Keeps (fun r => alive (log r.kernel) = others) (f (.error why)).run)
    (hok : ∀ g r, alive (log r.kernel) = g.sandbox.toList ++ others →
      Ends (f (.ok g)) r fun _ r' => alive (log r'.kernel) = others) :
    Keeps (fun r : Run σ => alive (log r.kernel) = others)
      (Phase.attempt (k.gatewayOf n t limit) >>= f).run := by
  apply Keeps.of_ends
  intro r h
  rw [ends_bind, ends_attempt]
  refine Ends.mono (hk.leaves_gatewayOf h n t limit) ?_
  rintro (why | g) st hafter
  · exact herror why _ hafter
  · exact hok g _ hafter

theorem keeps_visit (id : Identity) :
    Keeps (fun r : Run σ => alive (log r.kernel) = others) (k.visit id).run := by
  refine Keeps.run_bind Keeps.survey fun v => ?_
  split
  · exact Keeps.run_pure
  · apply hk.keeps_gatewayOf
    · intro why
      exact Keeps.run_bind (Keeps.change fun _ h => h) fun _ => Keeps.run_pure
    · intro g r h
      dsimp only
      rw [ends_bind, ends_change, andThen_ok]
      exact hk.alive_throughGateway ((hk.quiet fun l => alive l = _).findMountedIn g) h

theorem keeps_findMounted :
    Keeps (fun r : Run σ => alive (log r.kernel) = others) k.findMounted.run := by
  have hq := hk.quiet fun l => alive l = others
  apply Keeps.run_bind (Keeps.asks (hq.identityAt _))
  rintro (why | own)
  · exact Keeps.change fun _ h => h
  · apply Keeps.run_bind (Keeps.asks (hq.ownReference own))
    intro reference
    refine Keeps.run_bind Keeps.survey fun v => ?_
    apply Keeps.run_bind (hq.findMountedIn _)
    intro found
    exact Keeps.visitAll hq.checkTime hk.keeps_visit _ _ _

theorem keeps_readTables (ids : List Identity) (tables : Registry Identity (List Mount)) :
    Keeps (fun r : Run σ => alive (log r.kernel) = others) (k.readTables ids tables).run := by
  induction ids generalizing tables with
  | nil => exact Keeps.run_pure
  | cons id rest ih =>
    apply Keeps.run_bind ((hk.quiet fun l => alive l = others).checkTime _)
    intro _
    refine Keeps.run_bind Keeps.survey fun v => ?_
    split
    · exact ih tables
    · apply hk.keeps_gatewayOf
      · intro why
        exact Keeps.run_bind (Keeps.change fun _ h => h) fun _ => ih tables
      · intro g r h
        dsimp only
        simp only [ends_bind, ends_change, ends_sure, andThen_ok]
        have hread : alive (log (k.contents g.tablePath r.kernel).2) = g.sandbox.toList ++ others :=
          (hk.quiet fun l => alive l = _).contents g.tablePath r.kernel h
        have hclosed := hk.alive_close_of_eq hread
        cases (k.contents g.tablePath r.kernel).1 with
        | ok table => exact ih _ _ hclosed
        | error why =>
          dsimp only
          rw [ends_bind, ends_change, andThen_ok]
          exact ih tables _ hclosed

theorem keeps_keepMountTables :
    Keeps (fun r : Run σ => alive (log r.kernel) = others) k.keepMountTables.run := by
  refine Keeps.run_bind Keeps.survey fun v => ?_
  apply Keeps.run_bind (hk.keeps_readTables _ _)
  intro tables
  exact Keeps.change fun _ h => h

theorem keeps_climbFrom (s : Species) (id : Identity) :
    Keeps (fun r : Run σ => alive (log r.kernel) = others) (k.climbFrom s id).run := by
  have hq := hk.quiet fun l => alive l = others
  apply Keeps.run_bind (hq.checkTime _)
  intro _
  refine Keeps.run_bind Keeps.survey fun v => ?_
  split
  · exact Keeps.run_pure
  · rename_i n _
    split
    · exact Keeps.run_pure
    · apply Keeps.run_bind (Keeps.asks (hk.keeps_openedReference n.reference _))
      rintro (why | f)
      · exact Keeps.run_pure
      · exact hq.climb s _ id f

theorem keeps_findAncestors (s : Species) :
    Keeps (fun r : Run σ => alive (log r.kernel) = others) (k.findAncestors s).run := by
  refine Keeps.run_bind Keeps.survey fun v => ?_
  apply Keeps.run_forM
  intro id _
  exact hk.keeps_climbFrom s id

/-! ## The whole -/

theorem keeps_discover (o : Options) :
    Keeps (fun st => alive (log st) = others) (k.discover o).run := by
  have hq := hk.quiet fun l => alive l = others
  have hsteps : ∀ step ∈ k.plan o,
      Keeps (fun r : Run σ => alive (log r.kernel) = others) step.run.run := by
    intro step h
    exact of_mem_plan
      (Q := fun step => Keeps (fun r : Run σ => alive (log r.kernel) = others) step.run.run)
      hq.findJoined hq.findHeld hk.keeps_findMounted hk.keeps_findAncestors
      (fun s => Keeps.change fun _ h => h) hk.keeps_keepMountTables h
  have hall : Keeps (fun r : Run σ => alive (log r.kernel) = others)
      (Step.performAll (k.plan o)).run :=
    Step.keeps_performAll hsteps fun _ _ _ _ _ h _ => h
  apply Keeps.of_ends
  intro st h
  rw [ends_discover]
  exact hall _ (hq.freshSurvey o st h)

end Kernel.Records

/-! ## The law -/

/-- Whatever the host answers and whatever fails: a gateway that does not come out leaves no
sandbox. One that does holds one sandbox where any was spawned, for each path of its reference but a
first one by which a process has joined the namespace, and loses it when it is closed. It never has
more than two at once. So every part of a discovery that opens gateways, and a discovery as a
whole, leaves the sandboxes as they were. -/
theorem no_sandbox_outlives_its_gateway (k : Kernel σ φ) (log : σ → List SandboxEvent)
    (hk : k.Records log) :
    (∀ reference limit st, Ends (k.gateway reference limit) st fun outcome st' =>
      (log st <+: log st' ∧ ∀ moment, log st <+: moment → moment <+: log st' →
        (alive moment).length ≤ (alive (log st)).length + 2) ∧
      match outcome with
      | .error _ => alive (log st') = alive (log st)
      | .ok g =>
        (∃ p rest, reference.paths = p :: rest ∧
          (p.IsMountOfProcess → g.spawned = reference.paths.length - 1) ∧
          (¬ p.IsMountOfProcess → g.spawned = reference.paths.length)) ∧
        (g.spawned = 0 → g.sandbox = none ∧ alive (log st') = alive (log st)) ∧
        (g.spawned ≠ 0 → ∃ pid, g.sandbox = some pid ∧ g.pid = some pid ∧
          g.root = Gateway.rootOf pid ∧ alive (log st') = pid :: alive (log st)) ∧
        ∀ st'', alive (log st'') = alive (log st') →
          alive (log (k.close g st'').2) = alive (log st)) ∧
    (∀ reference limit st,
      alive (log ((k.openedReference reference limit).run st).2) = alive (log st)) ∧
    (∀ r, alive (log (k.findMounted.run r).2.kernel) = alive (log r.kernel)) ∧
    (∀ r, alive (log (k.keepMountTables.run r).2.kernel) = alive (log r.kernel)) ∧
    ∀ o st, alive (log ((k.discover o).run st).2) = alive (log st) := by
  refine ⟨?_, ?_, ?_, ?_, ?_⟩
  · intro reference limit st
    refine Ends.mono (hk.ends_gateway reference limit st) ?_
    rintro outcome st' ⟨hwithin, hafter⟩
    refine ⟨hwithin, ?_⟩
    cases outcome with
    | error why => exact hafter
    | ok g =>
      obtain ⟨hg, halive, p, rest, hpaths, hfirst, hother⟩ := hafter
      refine ⟨⟨p, rest, hpaths, ?_, ?_⟩, ?_, ?_, ?_⟩
      · intro hp
        rw [hfirst hp, hpaths, List.length_cons]
        omega
      · intro hp
        rw [hother hp, hpaths, List.length_cons]
      · intro hnone
        rcases hg with ⟨_, hsandbox⟩ | ⟨hsome, _⟩
        · rw [hsandbox] at halive
          exact ⟨hsandbox, halive⟩
        · exact absurd hnone hsome
      · intro hsome
        rcases hg with ⟨hnone, _⟩ | ⟨_, pid, hsandbox, hpid, hroot⟩
        · exact absurd hnone hsome
        · rw [hsandbox] at halive
          exact ⟨pid, hsandbox, hpid, hroot, halive⟩
      · intro st'' hst
        exact hk.alive_close_of_eq (hst.trans halive)
  · intro reference limit st
    exact hk.keeps_openedReference reference limit st rfl
  · intro r
    exact hk.keeps_findMounted r rfl
  · intro r
    exact hk.keeps_keepMountTables r rfl
  · intro o st
    exact hk.keeps_discover o st rfl

/-- A host that only keeps account of sandboxes. -/
def Kernel.logging : Kernel (List SandboxEvent) φ :=
  { plain with
    spawn := fun _ _ _ l =>
      let pid : Pid := ⟨100 + Int32.ofNat l.length⟩
      (.ok pid, l ++ [.started pid])
    release := fun pid l => ((), l ++ [.ended pid]) }

/-- Such a host where every file is a mount namespace. -/
def sandboxHost : Kernel (List SandboxEvent) Path :=
  { Kernel.logging with
    openFile := fun p => return .ok p
    identify := fun _ => return .ok ⟨4, 1⟩
    speciesFlag := fun _ => return .ok Species.mount.flag }

theorem records_sandboxHost : sandboxHost.Records id where
  quiet _ := by
    constructor <;> first | exact fun _ h => h | exact fun _ _ h => h
  spawned _ _ _ _ _ h := by
    cases h
    rfl
  unspawned _ _ _ _ _ h := by
    cases h
  released _ _ := rfl

/-- A mount namespace that a process holds open is entered through one sandbox, until it is
closed. -/
theorem a_held_namespace_takes_a_sandbox :
    sandboxHost.Records id ∧
    ∃ g, ((sandboxHost.gateway (.single "/proc/7/fd/3") (.ofSeconds 5)).run []).1 = .ok g ∧
      g.spawned = 1 ∧ g.root = "/proc/100/root" ∧
      alive ((sandboxHost.gateway (.single "/proc/7/fd/3") (.ofSeconds 5)).run []).2 = [⟨100⟩] ∧
      alive (sandboxHost.close g [.started ⟨100⟩]).2 = [] := by
  have hlaw := (no_sandbox_outlives_its_gateway sandboxHost id records_sandboxHost).1
    (.single "/proc/7/fd/3") (.ofSeconds 5) []
  have hpid : ((sandboxHost.gateway (.single "/proc/7/fd/3") (.ofSeconds 5)).run []).1.toOption.map
      (fun g => (g.spawned, g.sandbox)) = some (1, some ⟨100⟩) := by
    decide +kernel
  unfold Ends at hlaw
  cases hrun : ((sandboxHost.gateway (.single "/proc/7/fd/3") (.ofSeconds 5)).run []).1 with
  | error why =>
    rw [hrun] at hpid
    cases hpid
  | ok g =>
    rw [hrun] at hpid hlaw
    have hpair : (g.spawned, g.sandbox) = (1, some ⟨100⟩) := Option.some.inj hpid
    obtain ⟨hspawned, hsandbox⟩ := Prod.mk.inj hpair
    obtain ⟨_, _, _, hsome, hclose⟩ := hlaw
    obtain ⟨pid, hpid', _, hroot, halive⟩ := hsome (by omega)
    rw [hsandbox] at hpid'
    cases hpid'
    exact ⟨records_sandboxHost, g, rfl, hspawned, hroot.trans (by decide +kernel), halive,
      hclose [.started ⟨100⟩] halive.symm⟩

end NamespaceAtlas

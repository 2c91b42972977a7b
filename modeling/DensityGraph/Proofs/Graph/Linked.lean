import DensityGraph.Proofs.Dag.Order
import DensityGraph.Proofs.Graph.Call
import DensityGraph.Proofs.Graph.Parents
/-!
# What a node reads belongs to the same compiled graph

Whatever is called, short of the direct removal of an edge, arguments and targets stay
among the parents.  Parameters do so as long as no call takes away a target that is a
parameter of the same distribution, and the first such call breaks the rule.
-/

namespace DensityGraph

namespace Call

/-- Whether a call removes an edge directly. -/
def isRemoval : Call → Bool
  | removeParent _ _ => true
  | _ => false

end Call

namespace Workspace

variable {u v w w' : Workspace} {e : Edit} {c : Call} {id t : NodeId}

def rereads (w : Workspace) (id : NodeId) : Bool :=
  match w.node? id with
  | some n => n.target?.any fun t => n.parameters.contains t
  | none => false

/-- Whether a call takes a target away that is a parameter of the same distribution. -/
def releasesParameter (w : Workspace) (c : Call) : Bool :=
  (c.released? w).any w.rereads

theorem releasesParameter_of_released (h : c.released? w = some id) :
    w.releasesParameter c = w.rereads id := by
  unfold releasesParameter
  rw [h]
  rfl

theorem not_unlink_of_makes (hc : c.isRemoval = false) (h : c.Makes u v e) :
    forall child parent, e ≠ .unlink child parent := by
  rintro child parent rfl
  rw [h] at hc
  cases hc

/-!
# Targets that are parameters, too
-/

theorem rereads_of_growsTo (h : w.GrowsTo v) (ht : v.target? id = some t) :
    v.rereads id = w.rereads id := by
  rw [h.target?] at ht
  cases hn : w.node? id with
  | none =>
      unfold target? at ht
      rw [hn] at ht
      cases ht
  | some n =>
      unfold rereads
      rw [hn, h.node? hn]

theorem rereads_iff {n : Node} (hn : w.node? id = some n) (ht : w.target? id = some t) :
    w.rereads id = true ↔ t ∈ n.parameters := by
  rw [target?_of_node? hn] at ht
  unfold rereads
  rw [hn]
  simp [ht]

theorem target?_of_admits_detach (h : w.Admits (.detach id t)) : w.target? id = some t := by
  rcases h with ⟨n, d, hn, hd, ht⟩
  rw [target?_of_node? hn, Node.target?, hd]
  exact ht

/-!
# What all calls preserve
-/

theorem paired_of_built {allowed : Workspace → Call → Prop} (h : w.Built allowed) :
    w.Paired := by
  apply h.preserves paired_empty
  intro _ v _ e hv _ _ hadmits _
  exact hv.edit hadmits

theorem linksArguments_empty (settings : Settings) (wide : Bool) :
    (empty settings wide).LinksArguments := by
  intro id n hn
  cases hn

theorem linksParameters_empty (settings : Settings) (wide : Bool) :
    (empty settings wide).LinksParameters := by
  intro id n hn
  cases hn

theorem linksArguments_of_built {allowed : Workspace → Call → Prop} (h : w.Built allowed)
    (hallowed : forall w c, allowed w c -> c.isRemoval = false) : w.LinksArguments := by
  apply h.preserves linksArguments_empty
  intro _ v c e hv hc _ hadmits hmakes
  exact hv.edit hadmits (not_unlink_of_makes (hallowed _ c hc) hmakes)

/-- The calls that take no parameter away. -/
def keeps (w : Workspace) (c : Call) : Bool :=
  !c.isRemoval && !w.releasesParameter c

theorem keeps_iff : w.keeps c = true ↔ c.isRemoval = false ∧ w.releasesParameter c = false := by
  simp [keeps]

theorem linksParameters_of_built (h : w.Built fun w c => w.keeps c = true) :
    w.LinksParameters := by
  apply h.preserves linksParameters_empty
  intro u v c e hv hkeeps _ hadmits hmakes
  have hc := keeps_iff.mp hkeeps
  apply hv.edit hadmits (not_unlink_of_makes hc.1 hmakes)
  rintro id t n rfl hn ht
  rcases hmakes with ⟨hreleased, hgrows⟩
  have htarget : v.target? id = some t := target?_of_admits_detach hadmits
  have hrereads : v.rereads id = true := (rereads_iff hn htarget).mpr ht
  rw [rereads_of_growsTo hgrows htarget, ← releasesParameter_of_released hreleased, hc.2]
    at hrereads
  cases hrereads

theorem readsParents_of_built (h : w.Built fun w c => w.keeps c = true) : w.ReadsParents := by
  rw [readsParents_iff]
  constructor
  · apply linksArguments_of_built h
    intro w c hc
    exact (keeps_iff.mp hc).1
  · exact linksParameters_of_built h

theorem ReadsParents.mem_compiled (h : w.ReadsParents) {starts : List NodeId} {d : Dag}
    {n : Node} {r : NodeId} (hd : w.compile starts = .ok d) (hid : id ∈ d.nodes)
    (hn : w.node? id = some n) (hr : r ∈ n.role.reads) : r ∈ d.nodes := by
  have hparents : r ∈ w.parents id := by
    rw [parents_of_node? hn]
    exact h id n hn r hr
  exact (compile_ok hd).2.mem_of_mem hid hparents

/-!
# The exception
-/

/-- A distribution node has a parameter that is none of its parents. -/
def Lacks (w : Workspace) (id r : NodeId) : Prop :=
  ∃ n, w.node? id = some n ∧ r ∈ n.parameters ∧ r ∉ n.parents

theorem Lacks.not_readsParents (h : w.Lacks id t) : ¬w.ReadsParents := by
  rcases h with ⟨n, hn, hparameter, hparent⟩
  intro hreads
  exact hparent ((readsParents_iff.mp hreads).2 id n hn t hparameter)

theorem parameters_of_changes {x : NodeId} {n n' : Node} (h : e.Changes x n n')
    (he : forall p name, e ≠ .parameter x p name) : n'.parameters = n.parameters := by
  rcases h.role_cases with hrole | ⟨f, hf, hrole⟩
  · exact Node.parameters_of_role hrole
  · unfold Node.parameters
    rw [Node.distribution?_of_mapDistribution hrole]
    cases n.distribution? with
    | none => rfl
    | some d =>
        simp only [Option.map_some]
        rw [hf.parameters he]

theorem lacks_detach (hadmits : w.Admits (.detach id t)) (h : w.rereads id = true) :
    (w.edit (.detach id t)).Lacks id t := by
  have htarget := target?_of_admits_detach hadmits
  have hnode : ∃ n, w.node? id = some n := by
    rcases hadmits with ⟨n, d, hn, _⟩
    exact ⟨n, hn⟩
  rcases hnode with ⟨n, hn⟩
  rcases exists_node?_edit hadmits hn with ⟨n', hn', hchanges⟩
  refine ⟨n', hn', ?_, ?_⟩
  · rw [parameters_of_changes hchanges nofun]
    exact (rereads_iff hn htarget).mp h
  · rw [hchanges.parents]
    rintro ⟨_, hnot⟩
    exact hnot ⟨rfl, rfl⟩

theorem Lacks.edit {r : NodeId} (h : w.Lacks id r) (hadmits : w.Admits e)
    (hparameter : forall p name, e ≠ .parameter id p name)
    (hattach : forall v, e ≠ .attach id r v) (hlink : e ≠ .link id r) :
    (w.edit e).Lacks id r := by
  rcases h with ⟨n, hn, hr, hnot⟩
  rcases exists_node?_edit hadmits hn with ⟨n', hn', hchanges⟩
  refine ⟨n', hn', ?_, ?_⟩
  · rw [parameters_of_changes hchanges hparameter]
    exact hr
  · rw [hchanges.parents]
    unfold Edit.HasParent
    cases e with
    | link c q =>
        rintro (hp | ⟨rfl, rfl⟩)
        · exact hnot hp
        · exact hlink rfl
    | attach id' q v =>
        rintro (hp | ⟨rfl, rfl⟩)
        · exact hnot hp
        · exact hattach v rfl
    | parameter id' q name =>
        rintro (hp | ⟨rfl, rfl⟩)
        · exact hnot hp
        · exact hparameter r name rfl
    | unlink c q =>
        intro hp
        exact hnot hp.1
    | detach id' q =>
        intro hp
        exact hnot hp.1
    | _ => exact hnot

theorem not_readsParents_of_releases (hw : w.Paired) (h : w.releasesParameter c = true)
    (hrun : c.perform.run w = (.ok (), w')) : ¬w'.ReadsParents := by
  cases c with
  | removeTarget id =>
      rcases (Action.ends_removeTarget id).of_ok hrun with ⟨t, hadmits, rfl⟩
      exact (lacks_detach hadmits h).not_readsParents
  | observe y user =>
      have hends := Call.ends_discard (Action.ends_observe (w := w) y user)
      rcases hends.of_ok hrun with
        ⟨id, v, y', t, nv, m, hreleased, hgrows, _, hfree, hdetach, hattach, rfl⟩
      have hpaired : v.Paired := by
        apply hgrows.preserves hw
        intro _ _ hu hadmits _
        exact hu.edit hadmits
      have htarget : v.target? id = some t := target?_of_admits_detach hdetach
      have hrereads : v.rereads id = true := by
        rw [rereads_of_growsTo hgrows htarget, ← releasesParameter_of_released hreleased]
        exact h
      have hne : y' ≠ t := by
        rintro rfl
        have howner : v.owner? y' = some id := (hpaired y' id).mpr htarget
        unfold owner? at howner
        cases hn : v.node? y' with
        | none =>
            rw [hn] at howner
            cases howner
        | some n =>
            rw [hn] at howner hfree
            simp only [Option.map_some, Option.some.injEq] at hfree
            rw [Option.bind_some, hfree] at howner
            cases howner
      have hlacks := lacks_detach hdetach hrereads
      have hattached : (((v.edit (.detach id t)).edit (.attach id y' nv))).Lacks id t := by
        apply hlacks.edit hattach nofun _ nofun
        intro v' heq
        cases heq
        exact hne rfl
      have huser := hattached.edit (e := .user id y') trivial nofun nofun nofun
      exact (huser.edit (e := .report m) trivial nofun nofun nofun).not_readsParents
  | _ => cases h

/-- Arguments and targets stay among the parents.  So do parameters, up to the first call
that takes away a target that is a parameter of the same distribution. -/
theorem reads_linked (w : Workspace) :
    (w.Built (fun _ c => c.isRemoval = false) -> w.LinksArguments) ∧
    (w.Built (fun w c => w.keeps c = true) ->
      w.ReadsParents ∧
      (forall (starts : List NodeId) (d : Dag) (id : NodeId) (n : Node) (r : NodeId),
        w.compile starts = .ok d -> id ∈ d.nodes -> w.node? id = some n ->
          r ∈ n.role.reads -> r ∈ d.nodes) ∧
      forall (c : Call) (w' : Workspace), c.isRemoval = false ->
        c.perform.run w = (.ok (), w') ->
          (w'.ReadsParents ↔ w.releasesParameter c = false)) := by
  constructor
  · intro hw
    exact linksArguments_of_built hw fun _ _ hc => hc
  · intro hw
    have hreads : w.ReadsParents := readsParents_of_built hw
    refine ⟨hreads, ?_, ?_⟩
    · intro starts d id n r hd hid hn hr
      exact hreads.mem_compiled hd hid hn hr
    · intro c w' hc hrun
      constructor
      · intro hreads'
        cases hreleases : w.releasesParameter c with
        | false => rfl
        | true =>
            have hbroken := not_readsParents_of_releases (paired_of_built hw) hreleases hrun
            exact absurd hreads' hbroken
      · intro hkeeps
        exact readsParents_of_built (hw.call c (keeps_iff.mpr ⟨hc, hkeeps⟩) hrun)

/-- An outcome of the normal distribution that is the mean of the distribution, too. -/
def selfCentred : Workspace :=
  [.data (.float 1.0), .declare .normal [.node 0, .float 1.0] [],
    .observe (.node 0) (.node 3), .data (.float 2.0)].foldl after (empty {} true)

theorem built_selfCentred : selfCentred.Built fun w c => w.keeps c = true :=
  built_foldl (.empty {} true) (by decide +kernel)

theorem reads_linked_selfCentred :
    selfCentred.ReadsParents ∧
      ((selfCentred.after (.removeTarget 2)).ReadsParents ↔
        selfCentred.releasesParameter (.removeTarget 2) = false) ∧
      ((selfCentred.after (.declare .normal [.node 0, .node 4] [])).ReadsParents ↔
        selfCentred.releasesParameter (.declare .normal [.node 0, .node 4] []) = false) := by
  rcases (reads_linked selfCentred).2 built_selfCentred with ⟨hreads, _, hcall⟩
  refine ⟨hreads, ?_, ?_⟩
  · exact hcall (.removeTarget 2) _ rfl (run_of_returns (by decide +kernel))
  · exact hcall (.declare .normal [.node 0, .node 4] []) _ rfl
      (run_of_returns (by decide +kernel))

/-- When other data are observed, the distribution loses sight of its mean. -/
theorem not_linked_selfCentred :
    ¬forall w : Workspace, w.Built (fun _ c => c.isRemoval = false) -> w.ReadsParents := by
  intro h
  have hbuilt : (selfCentred.after (.observe (.node 4) (.node 0))).Built
      fun _ c => c.isRemoval = false := by
    apply Built.call (.observe (.node 4) (.node 0)) _ rfl (run_of_returns (by decide +kernel))
    exact built_selfCentred.mono fun w c hc => (keeps_iff.mp hc).1
  have hreleases : selfCentred.releasesParameter (.observe (.node 4) (.node 0)) = true := by
    decide +kernel
  have hrun := run_of_returns (w := selfCentred) (c := .observe (.node 4) (.node 0))
    (by decide +kernel)
  exact not_readsParents_of_releases (paired_of_built built_selfCentred) hreleases hrun
    (h _ hbuilt)

end Workspace
end DensityGraph

import DensityGraph.Proofs.Graph.Edit
/-!
# Nodes before and after an edit

An edit keeps all nodes and their shapes.  What else it changes in a node, and what it
knows about a node that it creates, is said here once and for all.
-/

namespace DensityGraph

theorem Node.distribution?_of_mapDistribution {n n' : Node} {f : Distribution → Distribution}
    (h : n'.role = (n.mapDistribution f).role) : n'.distribution? = n.distribution?.map f := by
  unfold mapDistribution at h
  unfold distribution?
  rw [h]
  cases hn : n.role <;> simp [hn]

namespace Edit

def roleAfter (e : Edit) (x : NodeId) (n : Node) : Role :=
  match e with
  | attach id t _ =>
      if x = id then (n.mapDistribution (Distribution.setTarget (some t))).role else n.role
  | detach id _ =>
      if x = id then (n.mapDistribution (Distribution.setTarget none)).role else n.role
  | parameter id p name =>
      if x = id then (n.mapDistribution (Distribution.setParameter name p)).role else n.role
  | user id y =>
      if x = id then (n.mapDistribution fun d => { d with userNode := y }).role else n.role
  | _ => n.role

def HasParent (e : Edit) (x : NodeId) (n : Node) (p : NodeId) : Prop :=
  match e with
  | link child q => p ∈ n.parents ∨ x = child ∧ p = q
  | attach id t _ => p ∈ n.parents ∨ x = id ∧ p = t
  | parameter id q _ => p ∈ n.parents ∨ x = id ∧ p = q
  | unlink child q => p ∈ n.parents ∧ ¬(x = child ∧ p = q)
  | detach id t => p ∈ n.parents ∧ ¬(x = id ∧ p = t)
  | _ => p ∈ n.parents

def ownerAfter (e : Edit) (x : NodeId) (owner : Option NodeId) : Option NodeId :=
  match e with
  | attach id t _ => if x = t then some id else owner
  | detach _ t => if x = t then none else owner
  | _ => owner

def targetAfter (e : Edit) (x : NodeId) (target : Option NodeId) : Option NodeId :=
  match e with
  | attach id t _ => if x = id then some t else target
  | detach id _ => if x = id then none else target
  | _ => target

def valueAfter (e : Edit) (x : NodeId) (n : Node) : NodeValue :=
  match e with
  | attach id _ v => if x = id then v else n.value
  | value id v => if x = id then v else n.value
  | _ => n.value

structure Changes (e : Edit) (x : NodeId) (n n' : Node) : Prop where
  dim : n'.dim = n.dim
  role : n'.role = e.roleAfter x n
  parents : forall p, p ∈ n'.parents ↔ e.HasParent x n p
  distribution : n'.distribution = e.ownerAfter x n.distribution
  value : n'.value = e.valueAfter x n

structure Creates (e : Edit) (x : NodeId) (n : Node) : Prop where
  made : e = place x n ∧ n.Made ∨
    ∃ b m arguments o extras, e = compute b x m arguments ∧
      n.role = .operation o arguments extras ∧ m.dim = n.dim ∧ m.role = n.role ∧
      (forall p, p ∈ n.parents ↔ p ∈ arguments)
  distribution : n.distribution = none
  value : n.value.array.shape = n.dim

structure Keeps (e : Edit) (x : NodeId) (d d' : Distribution) : Prop where
  family : d'.family = d.family
  support : d'.support = d.support
  truncation : d'.truncation = d.truncation
  parameters : forall q, q ∈ d'.parameters ->
    q ∈ d.parameters ∨ e = parameter x q.2 q.1

inductive Rewrites : Edit → NodeId → (Distribution → Distribution) → Prop where
  | attach (id t : NodeId) (v : NodeValue) :
      Rewrites (.attach id t v) id (Distribution.setTarget (some t))
  | detach (id t : NodeId) : Rewrites (.detach id t) id (Distribution.setTarget none)
  | parameter (id p : NodeId) (name : String) :
      Rewrites (.parameter id p name) id (Distribution.setParameter name p)
  | user (id y : NodeId) : Rewrites (.user id y) id fun d => { d with userNode := y }

end Edit

theorem Distribution.mem_setParameter {d : Distribution} {name : String} {p : NodeId}
    {q : String × NodeId} (hq : q ∈ (d.setParameter name p).parameters) :
    q ∈ d.parameters ∨ q = (name, p) := by
  unfold setParameter at hq
  split at hq
  · rcases List.mem_map.mp hq with ⟨q', hq', rfl⟩
    split
    · exact Or.inr rfl
    · exact Or.inl hq'
  · rcases List.mem_append.mp hq with hold | hnew
    · exact Or.inl hold
    · exact Or.inr (List.mem_singleton.mp hnew)

namespace Edit

variable {e : Edit} {x : NodeId} {n n' : Node} {f : Distribution → Distribution}

theorem Changes.role_cases (h : e.Changes x n n') :
    n'.role = n.role ∨ ∃ f, e.Rewrites x f ∧ n'.role = (n.mapDistribution f).role := by
  have hrole := h.role
  unfold roleAfter at hrole
  split at hrole
  · split at hrole
    · rename_i hx
      exact Or.inr ⟨_, hx ▸ Rewrites.attach _ _ _, hrole⟩
    · exact Or.inl hrole
  · split at hrole
    · rename_i hx
      exact Or.inr ⟨_, hx ▸ Rewrites.detach _ _, hrole⟩
    · exact Or.inl hrole
  · split at hrole
    · rename_i hx
      exact Or.inr ⟨_, hx ▸ Rewrites.parameter _ _ _, hrole⟩
    · exact Or.inl hrole
  · split at hrole
    · rename_i hx
      exact Or.inr ⟨_, hx ▸ Rewrites.user _ _, hrole⟩
    · exact Or.inl hrole
  · exact Or.inl hrole

theorem Rewrites.keeps (h : e.Rewrites x f) (d : Distribution) : e.Keeps x d (f d) := by
  cases h with
  | parameter id p name =>
      constructor
      · unfold Distribution.setParameter
        split <;> rfl
      · unfold Distribution.setParameter
        split <;> rfl
      · unfold Distribution.setParameter
        split <;> rfl
      · intro q hq
        rcases Distribution.mem_setParameter hq with hold | rfl
        · exact Or.inl hold
        · exact Or.inr rfl
  | _ => exact ⟨rfl, rfl, rfl, fun _ => Or.inl⟩

theorem Rewrites.name (h : e.Rewrites x f) (d : Distribution) : (f d).name = d.name := by
  cases h with
  | parameter id p name =>
      unfold Distribution.setParameter
      split <;> rfl
  | _ => rfl

theorem Rewrites.parameters (h : e.Rewrites x f) (he : forall p name, e ≠ .parameter x p name)
    (d : Distribution) : (f d).parameters = d.parameters := by
  cases h with
  | parameter id p name => exact absurd rfl (he p name)
  | _ => rfl

end Edit

namespace Workspace

variable {w : Workspace} {e : Edit} {x : NodeId} {n n' : Node}

theorem node?_linkAll_of_ne {child : NodeId} {parents : List NodeId} (hx : x ≠ child) :
    (w.linkAll child parents).node? x = some n' ->
      ∃ n, w.node? x = some n ∧ n' = { n with children := n'.children } := by
  intro h
  induction parents generalizing w with
  | nil => exact ⟨n', h, rfl⟩
  | cons p parents ih =>
      rcases ih h with ⟨m, hm, hn'⟩
      rw [node?_link] at hm
      cases hn : w.node? x with
      | none =>
          rw [hn] at hm
          cases hm
      | some n =>
          rw [hn] at hm
          simp only [Option.map_some, Option.some.injEq, if_neg hx] at hm
          refine ⟨n, rfl, ?_⟩
          rw [hn', ← hm]
          split
          · rw [Node.addChild_eq]
          · rfl

theorem node?_linkAll_self {parents : List NodeId} :
    (w.linkAll x parents).node? x = some n' ->
      ∃ n, w.node? x = some n ∧
        n' = { n with children := n'.children, parents := n'.parents } ∧
        forall p, p ∈ n'.parents ↔ p ∈ n.parents ∨ p ∈ parents := by
  intro h
  induction parents generalizing w with
  | nil =>
      refine ⟨n', h, rfl, ?_⟩
      intro p
      simp
  | cons q parents ih =>
      rcases ih h with ⟨m, hm, hn', hparents⟩
      rw [node?_link] at hm
      cases hn : w.node? x with
      | none =>
          rw [hn] at hm
          cases hm
      | some n =>
          rw [hn] at hm
          simp only [Option.map_some, Option.some.injEq, if_pos] at hm
          have hm' : m = { n with children := m.children, parents := m.parents } ∧
              m.parents = (n.addParent q).parents := by
            rw [← hm]
            split
            · rw [Node.addChild_eq, Node.addParent_eq]
              exact ⟨rfl, rfl⟩
            · rw [Node.addParent_eq]
              exact ⟨rfl, rfl⟩
          refine ⟨n, rfl, ?_, ?_⟩
          · rw [hn', hm'.1]
          · intro p
            rw [hparents p, hm'.2, Node.mem_parents_addParent, List.mem_cons, or_assoc]

/-- A node keeps everything but its children and, for the child of the edge, the one
parent. -/
theorem node?_link_some {c q : NodeId} (h : (w.link c q).node? x = some n') :
    ∃ n, w.node? x = some n ∧ n'.dim = n.dim ∧ n'.role = n.role ∧ n'.value = n.value ∧
      n'.distribution = n.distribution ∧
      forall p, p ∈ n'.parents ↔ p ∈ n.parents ∨ x = c ∧ p = q := by
  simp only [node?_link, Option.map_eq_some_iff] at h
  rcases h with ⟨n, hn, rfl⟩
  have hchild : forall m : Node, (if x = q then m.addChild c else m) =
      { m with children := (if x = q then m.addChild c else m).children } := by
    intro m
    split
    · rw [Node.addChild_eq]
    · rfl
  refine ⟨n, hn, ?_⟩
  rw [hchild]
  by_cases hx : x = c
  · simp [hx, Node.mem_parents_addParent]
  · simp [hx]

theorem node?_unlink_some {c q : NodeId} (h : (w.unlink c q).node? x = some n') :
    ∃ n, w.node? x = some n ∧ n'.dim = n.dim ∧ n'.role = n.role ∧ n'.value = n.value ∧
      n'.distribution = n.distribution ∧
      forall p, p ∈ n'.parents ↔ p ∈ n.parents ∧ ¬(x = c ∧ p = q) := by
  simp only [node?_unlink, Option.map_eq_some_iff] at h
  rcases h with ⟨n, hn, rfl⟩
  have hchild : forall m : Node, (if x = q then m.removeChild c else m) =
      { m with children := (if x = q then m.removeChild c else m).children } := by
    intro m
    split <;> rfl
  refine ⟨n, hn, ?_⟩
  rw [hchild]
  by_cases hx : x = c
  · simp [hx, Node.removeParent]
  · simp [hx]

theorem node?_update_some {id : NodeId} {f : Node → Node}
    (h : (w.update id f).node? x = some n') :
    ∃ n, w.node? x = some n ∧ n' = if x = id then f n else n := by
  rw [node?_update, Option.map_eq_some_iff] at h
  rcases h with ⟨n, hn, rfl⟩
  exact ⟨n, hn, rfl⟩

theorem node?_edit (hadmits : w.Admits e) (hn' : (w.edit e).node? x = some n') :
    (∃ n, w.node? x = some n ∧ e.Changes x n n') ∨ (w.node? x = none ∧ e.Creates x n') := by
  cases e with
  | reserve =>
      left
      refine ⟨n', ?_, rfl, rfl, fun _ => Iff.rfl, rfl, rfl⟩
      rw [← node?_reserve]
      exact hn'
  | report m => exact Or.inl ⟨n', hn', rfl, rfl, fun _ => Iff.rfl, rfl, rfl⟩
  | place id m =>
      rcases hadmits with ⟨hlength, hnone, hmade⟩
      by_cases hx : id = x
      · right
        rw [← hx] at hn' ⊢
        simp only [edit] at hn'
        rw [node?_put_self w m hlength] at hn'
        cases hn'
        refine ⟨hnone, Or.inl ⟨rfl, hmade⟩, ?_, ?_⟩
        · cases hmade <;> rfl
        · cases hmade <;> first | rfl | assumption
      · left
        simp only [edit] at hn'
        rw [node?_put_of_ne w m hx] at hn'
        exact ⟨n', hn', rfl, rfl, fun _ => Iff.rfl, rfl, rfl⟩
  | compute b id m arguments =>
      rcases hadmits with ⟨hlength, hnone, ⟨d, v, o, extras, reps, rfl⟩, _, hvalue⟩
      by_cases hx : x = id
      · right
        rw [hx] at hn' ⊢
        rcases node?_linkAll_self hn' with ⟨k, hk, hlinked, hparents⟩
        rw [node?_put_self w _ hlength] at hk
        cases hk
        rw [hlinked]
        refine ⟨hnone, Or.inr ⟨b, _, arguments, o, extras, rfl, rfl, rfl, rfl, ?_⟩, rfl, hvalue⟩
        intro p
        rw [hparents p]
        simp [Node.lone]
      · left
        rcases node?_linkAll_of_ne hx hn' with ⟨k, hk, hlinked⟩
        rw [node?_put_of_ne w _ (Ne.symm hx)] at hk
        rw [hlinked]
        exact ⟨k, hk, rfl, rfl, fun _ => Iff.rfl, rfl, rfl⟩
  | link c q =>
      rcases node?_link_some hn' with ⟨n, hn, hdim, hrole, hvalue, hdist, hparents⟩
      exact Or.inl ⟨n, hn, hdim, hrole, hparents, hdist, hvalue⟩
  | unlink c q =>
      rcases node?_unlink_some hn' with ⟨n, hn, hdim, hrole, hvalue, hdist, hparents⟩
      exact Or.inl ⟨n, hn, hdim, hrole, hparents, hdist, hvalue⟩
  | attach id t v =>
      rcases node?_update_some hn' with ⟨n₃, hn₃, rfl⟩
      rcases node?_update_some hn₃ with ⟨n₂, hn₂, rfl⟩
      rcases node?_link_some hn₂ with ⟨n₁, hn₁, hdim, hrole, hvalue, hdist, hparents⟩
      rcases node?_update_some hn₁ with ⟨n, hn, rfl⟩
      refine Or.inl ⟨n, hn, ?_⟩
      by_cases hid : x = id <;> by_cases ht : x = t <;> constructor <;>
        simp_all [Edit.roleAfter, Edit.HasParent, Edit.ownerAfter, Edit.valueAfter]
  | detach id t =>
      rcases node?_update_some hn' with ⟨n₂, hn₂, rfl⟩
      rcases node?_update_some hn₂ with ⟨n₁, hn₁, rfl⟩
      rcases node?_unlink_some hn₁ with ⟨n, hn, hdim, hrole, hvalue, hdist, hparents⟩
      refine Or.inl ⟨n, hn, ?_⟩
      have hcongr := Node.role_mapDistribution_congr (Distribution.setTarget none) hrole
      have hcongr' : (Node.mapDistribution (Distribution.setTarget none)
          { n₁ with distribution := none }).role =
            (n.mapDistribution (Distribution.setTarget none)).role :=
        Node.role_mapDistribution_congr _ hrole
      by_cases hid : x = id <;> by_cases ht : x = t <;> constructor <;>
        simp_all [Edit.roleAfter, Edit.HasParent, Edit.ownerAfter, Edit.valueAfter]
  | parameter id q name =>
      rcases node?_update_some hn' with ⟨n₁, hn₁, rfl⟩
      rcases node?_link_some hn₁ with ⟨n, hn, hdim, hrole, hvalue, hdist, hparents⟩
      refine Or.inl ⟨n, hn, ?_⟩
      have hcongr := Node.role_mapDistribution_congr (Distribution.setParameter name q) hrole
      by_cases hid : x = id <;> constructor <;>
        simp_all [Edit.roleAfter, Edit.HasParent, Edit.ownerAfter, Edit.valueAfter]
  | user id y =>
      rcases node?_update_some hn' with ⟨n, hn, rfl⟩
      refine Or.inl ⟨n, hn, ?_⟩
      by_cases hid : x = id <;> constructor <;>
        simp [hid, Edit.roleAfter, Edit.HasParent, Edit.ownerAfter, Edit.valueAfter]
  | value id v =>
      rcases node?_update_some hn' with ⟨n, hn, rfl⟩
      refine Or.inl ⟨n, hn, ?_⟩
      by_cases hid : x = id <;> constructor <;>
        simp [hid, Edit.roleAfter, Edit.HasParent, Edit.ownerAfter, Edit.valueAfter]

theorem isSome_node?_linkAll (w : Workspace) (child : NodeId) (parents : List NodeId)
    (x : NodeId) : ((w.linkAll child parents).node? x).isSome = (w.node? x).isSome := by
  induction parents generalizing w with
  | nil => rfl
  | cons p parents ih =>
      refine (ih (w.link child p)).trans ?_
      rw [node?_link, Option.isSome_map]

theorem exists_node?_edit (hadmits : w.Admits e) (hn : w.node? x = some n) :
    ∃ n', (w.edit e).node? x = some n' ∧ e.Changes x n n' := by
  have hsome : ((w.edit e).node? x).isSome = true := by
    have hx : (w.node? x).isSome = true := by
      rw [hn]
      rfl
    cases e with
    | reserve => rwa [edit, node?_reserve]
    | report m => exact hx
    | place id m =>
        have hne : id ≠ x := by
          rintro rfl
          rw [hadmits.2.1] at hn
          cases hn
        rwa [edit, node?_put_of_ne w m hne]
    | compute b id m arguments =>
        have hne : id ≠ x := by
          rintro rfl
          rw [hadmits.2.1] at hn
          cases hn
        rwa [edit, isSome_node?_linkAll, node?_put_of_ne w m hne]
    | link c q => rwa [edit, node?_link, Option.isSome_map]
    | unlink c q => rwa [edit, node?_unlink, Option.isSome_map]
    | attach id t v => simpa [edit, node?_update, node?_link] using hx
    | detach id t => simpa [edit, node?_update, node?_unlink] using hx
    | parameter id p name => simpa [edit, node?_update, node?_link] using hx
    | user id y => simpa [edit, node?_update] using hx
    | value id v => simpa [edit, node?_update] using hx
  rcases Option.isSome_iff_exists.mp hsome with ⟨n', hn'⟩
  refine ⟨n', hn', ?_⟩
  rcases node?_edit hadmits hn' with ⟨m, hm, hchanges⟩ | ⟨hnone, _⟩
  · rw [hn] at hm
    cases hm
    exact hchanges
  · rw [hn] at hnone
    cases hnone

/-!
# What no edit changes

Nodes stay where they are and keep their shapes and kinds.  Distributions keep all but their
target and what was handed out for them.
-/

theorem distribution?_of_changes (h : e.Changes x n n') :
    ∃ f : Distribution → Distribution, (forall d, e.Keeps x d (f d)) ∧
      n'.distribution? = n.distribution?.map f := by
  rcases h.role_cases with hrole | ⟨f, hf, hrole⟩
  · refine ⟨id, fun _ => ⟨rfl, rfl, rfl, fun _ => Or.inl⟩, ?_⟩
    unfold Node.distribution?
    rw [hrole, Option.map_id_fun, id]
  · exact ⟨f, hf.keeps, Node.distribution?_of_mapDistribution hrole⟩

theorem isDistribution_of_changes (h : e.Changes x n n') :
    n'.isDistribution = n.isDistribution := by
  rcases distribution?_of_changes h with ⟨f, _, hf⟩
  unfold Node.isDistribution
  rw [hf, Option.isSome_map]

theorem role_of_changes (h : e.Changes x n n') (hn : n.isDistribution = false) :
    n'.role = n.role := by
  have hmap : forall f, (n.mapDistribution f).role = n.role := by
    intro f
    unfold Node.isDistribution Node.distribution? at hn
    unfold Node.mapDistribution
    cases hrole : n.role with
    | distribution d =>
        rw [hrole] at hn
        cases hn
    | _ => simp only [hrole]
  rcases h.role_cases with hrole | ⟨f, _, hrole⟩
  · exact hrole
  · exact hrole.trans (hmap f)

theorem isSource_of_changes (h : e.Changes x n n') : n'.isSource = n.isSource := by
  cases hkind : n.isDistribution with
  | false =>
      unfold Node.isSource Node.isData Node.isLatent
      rw [role_of_changes h hkind]
  | true =>
      rw [Node.isSource_eq_false hkind,
        Node.isSource_eq_false ((isDistribution_of_changes h).trans hkind)]

theorem has_isSource_of_isData (h : w.has Node.isData x = true) :
    w.has Node.isSource x = true := by
  rcases exists_node_of_has h with ⟨n, hn, hdata⟩
  rw [has_of_node? hn]
  unfold Node.isSource
  rw [hdata, Bool.true_or]

theorem has_isSource_edit (hadmits : w.Admits e) (h : w.has Node.isSource x = true) :
    (w.edit e).has Node.isSource x = true := by
  rcases exists_node_of_has h with ⟨n, hn, hsource⟩
  rcases exists_node?_edit hadmits hn with ⟨n', hn', hchanges⟩
  rw [has_of_node? hn', isSource_of_changes hchanges]
  exact hsource

theorem Edits.exists_node? {P : Workspace → Edit → Prop} {v : Workspace} (h : Edits P w v)
    (hn : w.node? x = some n) : ∃ n', v.node? x = some n' ∧ n'.dim = n.dim ∧
      n'.isDistribution = n.isDistribution := by
  apply h.preserves (I := fun v => ∃ n', v.node? x = some n' ∧ n'.dim = n.dim ∧
    n'.isDistribution = n.isDistribution)
  · exact ⟨n, hn, rfl, rfl⟩
  · intro u e hu hadmits _
    rcases hu with ⟨m, hm, hdim, hkind⟩
    rcases exists_node?_edit hadmits hm with ⟨m', hm', hchanges⟩
    exact ⟨m', hm', hchanges.dim.trans hdim, (isDistribution_of_changes hchanges).trans hkind⟩

theorem exists_of_dims? {id : NodeId} {ids : List NodeId} {ds : List Shape}
    (h : w.dims? (id :: ids) = some ds) :
    ∃ n es, w.node? id = some n ∧ w.dims? ids = some es ∧ ds = n.dim :: es := by
  unfold dims? at h ⊢
  rw [List.mapM_cons] at h
  cases hn : w.node? id with
  | none =>
      rw [hn] at h
      cases h
  | some n =>
      rw [hn] at h
      cases hes : ids.mapM (fun id => (w.node? id).map Node.dim) with
      | none =>
          rw [hes] at h
          cases h
      | some es =>
          rw [hes] at h
          cases h
          exact ⟨n, es, rfl, rfl, rfl⟩

theorem forall_of_dims? {p : Shape → Prop} (h : forall id n, w.node? id = some n -> p n.dim)
    {ids : List NodeId} {ds : List Shape} (hds : w.dims? ids = some ds) :
    forall d, d ∈ ds -> p d := by
  induction ids generalizing ds with
  | nil =>
      cases hds
      nofun
  | cons id ids ih =>
      rcases exists_of_dims? hds with ⟨n, es, hn, hes, rfl⟩
      intro d hd
      rcases List.mem_cons.mp hd with rfl | hd
      · exact h id n hn
      · exact ih hes d hd

theorem Edits.dims? {P : Workspace → Edit → Prop} {v : Workspace} {ids : List NodeId}
    {ds : List Shape} (h : Edits P w v) (hds : w.dims? ids = some ds) : v.dims? ids = some ds := by
  induction ids generalizing ds with
  | nil => exact hds
  | cons id ids ih =>
      rcases exists_of_dims? hds with ⟨n, es, hn, hes, rfl⟩
      rcases h.exists_node? hn with ⟨n', hn', hdim, _⟩
      have hes' := ih hes
      unfold Workspace.dims? at hes' ⊢
      rw [List.mapM_cons, hn', hes', ← hdim]
      rfl

def HasFamily (w : Workspace) (x : NodeId) (f : Family) : Prop :=
  ∃ n d, w.node? x = some n ∧ n.distribution? = some d ∧ d.family = f

theorem HasFamily.edit {f : Family} (h : w.HasFamily x f) (hadmits : w.Admits e) :
    (w.edit e).HasFamily x f := by
  rcases h with ⟨n, d, hn, hd, hf⟩
  rcases exists_node?_edit hadmits hn with ⟨n', hn', hchanges⟩
  rcases distribution?_of_changes hchanges with ⟨g, hg, hmap⟩
  refine ⟨n', g d, hn', ?_, ?_⟩
  · rw [hmap, hd, Option.map_some]
  · rw [(hg d).family, hf]

theorem Edits.hasFamily {P : Workspace → Edit → Prop} {v : Workspace} {f : Family}
    (h : Edits P w v) (hw : w.HasFamily x f) : v.HasFamily x f := by
  apply h.preserves hw
  intro u e hu hadmits _
  exact hu.edit hadmits

end Workspace
end DensityGraph

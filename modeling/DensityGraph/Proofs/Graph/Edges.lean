import DensityGraph.Proofs.Graph.Change
/-!
# Edges on both sides

An edge is kept by its child and by its parent.  As long as both ends of every new edge are
nodes, the two sides agree, whatever edges are added and removed, and in whatever order.
So all parents and children are nodes.
-/

namespace DensityGraph

namespace Node

variable {n : Node} {p c : NodeId}

theorem parents_addParent :
    (n.addParent p).parents = if p ∈ n.parents then n.parents else n.parents ++ [p] := by
  unfold addParent
  split <;> rfl

theorem children_addChild :
    (n.addChild c).children = if c ∈ n.children then n.children else n.children ++ [c] := by
  unfold addChild
  split <;> rfl

@[simp] theorem children_addParent : (n.addParent p).children = n.children := by
  rw [addParent_eq]

@[simp] theorem children_mapDistribution {f : Distribution → Distribution} :
    (n.mapDistribution f).children = n.children := by
  rw [mapDistribution_eq]

end Node

namespace Workspace

variable {v w : Workspace} {e : Edit} {x y p c : NodeId} {n : Node}

theorem mem_parents : y ∈ w.parents x ↔ ∃ n, w.node? x = some n ∧ y ∈ n.parents := by
  unfold parents
  cases w.node? x <;> simp

theorem mem_children : y ∈ w.children x ↔ ∃ n, w.node? x = some n ∧ y ∈ n.children := by
  unfold children
  cases w.node? x <;> simp

theorem children_of_node? (h : w.node? x = some n) : w.children x = n.children := by
  unfold children
  rw [h]

theorem parents_of_none (h : w.node? x = none) : w.parents x = [] := by
  unfold parents
  rw [h]

theorem children_of_none (h : w.node? x = none) : w.children x = [] := by
  unfold children
  rw [h]

/-!
# Edges after changes of one node
-/

section Update

variable {id : NodeId} {f : Node → Node}

theorem parents_update_self (hn : w.node? id = some n) :
    (w.update id f).parents id = (f n).parents := by
  apply parents_of_node?
  rw [node?_update_self, hn, Option.map_some]

theorem children_update_self (hn : w.node? id = some n) :
    (w.update id f).children id = (f n).children := by
  apply children_of_node?
  rw [node?_update_self, hn, Option.map_some]

theorem parents_update_of_ne (h : id ≠ x) : (w.update id f).parents x = w.parents x := by
  unfold parents
  rw [node?_update_of_ne w f h]

theorem children_update_of_ne (h : id ≠ x) : (w.update id f).children x = w.children x := by
  unfold children
  rw [node?_update_of_ne w f h]

theorem parents_update (hf : forall n, (f n).parents = n.parents) (x : NodeId) :
    (w.update id f).parents x = w.parents x := by
  by_cases hx : id = x
  · cases hn : w.node? x with
    | none =>
        rw [parents_of_none hn, parents_of_none]
        rw [node?_update, hn, Option.map_none]
    | some n =>
        rw [hx, parents_update_self hn, hf, parents_of_node? hn]
  · exact parents_update_of_ne hx

theorem children_update (hf : forall n, (f n).children = n.children) (x : NodeId) :
    (w.update id f).children x = w.children x := by
  by_cases hx : id = x
  · cases hn : w.node? x with
    | none =>
        rw [children_of_none hn, children_of_none]
        rw [node?_update, hn, Option.map_none]
    | some n =>
        rw [hx, children_update_self hn, hf, children_of_node? hn]
  · exact children_update_of_ne hx

end Update

/-!
# Adding and removing an edge
-/

theorem parents_link (hc : (w.node? c).isSome = true) (x : NodeId) :
    (w.link c p).parents x =
      if x = c ∧ p ∉ w.parents c then w.parents c ++ [p] else w.parents x := by
  unfold link
  rw [parents_update fun n => Node.parents_addChild n c]
  by_cases hx : x = c
  · rcases Option.isSome_iff_exists.mp hc with ⟨n, hn⟩
    rw [hx, parents_update_self hn, Node.parents_addParent, parents_of_node? hn]
    by_cases hp : p ∈ n.parents <;> simp [hp]
  · rw [parents_update_of_ne (Ne.symm hx), if_neg fun h => hx h.1]

theorem children_link (hp : (w.node? p).isSome = true) (x : NodeId) :
    (w.link c p).children x =
      if x = p ∧ c ∉ w.children p then w.children p ++ [c] else w.children x := by
  have hchild : forall y, (w.update c (Node.addParent p)).children y = w.children y :=
    children_update fun n => Node.children_addParent
  unfold link
  by_cases hx : x = p
  · have hp' : ((w.update c (Node.addParent p)).node? p).isSome = true := by
      rw [node?_update, Option.isSome_map]
      exact hp
    rcases Option.isSome_iff_exists.mp hp' with ⟨n, hn⟩
    rw [hx, children_update_self hn, Node.children_addChild, ← children_of_node? hn, hchild]
    by_cases hc : c ∈ w.children p <;> simp [hc]
  · rw [children_update_of_ne (Ne.symm hx), hchild, if_neg fun h => hx h.1]

theorem parents_unlink (x : NodeId) : (w.unlink c p).parents x =
    if x = c then (w.parents c).filter (· != p) else w.parents x := by
  unfold unlink
  rw [parents_update (f := Node.removeChild c) fun n => rfl]
  by_cases hx : x = c
  · rw [hx, if_pos rfl]
    cases hn : w.node? c with
    | none =>
        rw [parents_of_none hn, parents_of_none]
        · rfl
        · rw [node?_update, hn, Option.map_none]
    | some n =>
        rw [parents_update_self hn, parents_of_node? hn]
        rfl
  · rw [parents_update_of_ne (Ne.symm hx), if_neg hx]

theorem children_unlink (x : NodeId) : (w.unlink c p).children x =
    if x = p then (w.children p).filter (· != c) else w.children x := by
  have hchild : forall y, (w.update c (Node.removeParent p)).children y = w.children y :=
    children_update fun n => rfl
  unfold unlink
  by_cases hx : x = p
  · rw [hx, if_pos rfl, ← hchild]
    cases hn : (w.update c (Node.removeParent p)).node? p with
    | none =>
        rw [children_of_none hn, children_of_none]
        · rfl
        · rw [node?_update, hn, Option.map_none]
    | some n =>
        rw [children_update_self hn, children_of_node? hn]
        rfl
  · rw [children_update_of_ne (Ne.symm hx), hchild, if_neg hx]

/-!
# Both sides agree
-/

/-- What parents and children say about each other: every edge is known on both sides, it is
kept once, and none leads from a node to itself. -/
structure Mutual (w : Workspace) : Prop where
  agree : forall p c, p ∈ w.parents c ↔ c ∈ w.children p
  nodup_parents : forall c, (w.parents c).Nodup
  nodup_children : forall p, (w.children p).Nodup
  irreflexive : forall c, c ∉ w.parents c

theorem nodup_concat {xs : List NodeId} (h : xs.Nodup) (hx : x ∉ xs) : (xs ++ [x]).Nodup := by
  rw [List.nodup_append]
  refine ⟨h, by simp, ?_⟩
  intro y hy z hz heq
  rw [List.mem_singleton.mp hz] at heq
  exact hx (heq ▸ hy)

namespace Mutual

theorem empty (settings : Settings) (wide : Bool) : (empty settings wide).Mutual := by
  have hparents : forall x, (Workspace.empty settings wide).parents x = [] := fun _ => rfl
  have hchildren : forall x, (Workspace.empty settings wide).children x = [] := fun _ => rfl
  constructor <;> simp [hparents, hchildren]

theorem congr (h : w.Mutual) (hparents : forall x, v.parents x = w.parents x)
    (hchildren : forall x, v.children x = w.children x) : v.Mutual := by
  constructor
  · intro p c
    rw [hparents, hchildren]
    exact h.agree p c
  · intro c
    rw [hparents]
    exact h.nodup_parents c
  · intro p
    rw [hchildren]
    exact h.nodup_children p
  · intro c
    rw [hparents]
    exact h.irreflexive c

theorem update (h : w.Mutual) (id : NodeId) (f : Node → Node)
    (hparents : forall n, (f n).parents = n.parents)
    (hchildren : forall n, (f n).children = n.children) : (w.update id f).Mutual :=
  h.congr (parents_update hparents) (children_update hchildren)

theorem link (h : w.Mutual) (hc : (w.node? c).isSome = true) (hp : (w.node? p).isSome = true)
    (hne : p ≠ c) : (w.link c p).Mutual := by
  have hagree : p ∉ w.parents c ↔ c ∉ w.children p := not_congr (h.agree p c)
  constructor
  · intro q x
    rw [parents_link hc, children_link hp]
    have hqx := h.agree q x
    by_cases hnew : p ∈ w.parents c
    · rw [if_neg fun hx => hx.2 hnew, if_neg fun hq => hagree.mpr hq.2 hnew]
      exact hqx
    · have hnew' := hagree.mp hnew
      by_cases hx : x = c <;> by_cases hq : q = p <;> simp_all
  · intro x
    rw [parents_link hc]
    split
    · rename_i hx
      exact nodup_concat (h.nodup_parents c) hx.2
    · exact h.nodup_parents x
  · intro q
    rw [children_link hp]
    split
    · rename_i hq
      exact nodup_concat (h.nodup_children p) hq.2
    · exact h.nodup_children q
  · intro x
    rw [parents_link hc]
    split
    · rename_i hx
      rw [hx.1, List.mem_append, List.mem_singleton, not_or]
      exact ⟨h.irreflexive c, Ne.symm hne⟩
    · exact h.irreflexive x

theorem unlink (h : w.Mutual) (c p : NodeId) : (w.unlink c p).Mutual := by
  constructor
  · intro q x
    rw [parents_unlink, children_unlink]
    have hqx := h.agree q x
    by_cases hx : x = c <;> by_cases hq : q = p <;> simp_all
  · intro x
    rw [parents_unlink]
    split
    · exact (h.nodup_parents c).filter _
    · exact h.nodup_parents x
  · intro q
    rw [children_unlink]
    split
    · exact (h.nodup_children p).filter _
    · exact h.nodup_children q
  · intro x hx
    rw [parents_unlink] at hx
    split at hx
    · rename_i heq
      rw [heq] at hx
      exact h.irreflexive c (List.mem_filter.mp hx).1
    · exact h.irreflexive x hx

theorem put (h : w.Mutual) {id : NodeId} (hid : id < w.nodes.length)
    (hfree : w.node? id = none) (hparents : n.parents = []) (hchildren : n.children = []) :
    (w.put id n).Mutual := by
  have hself := node?_put_self w n hid
  apply h.congr
  · intro x
    by_cases hx : id = x
    · rw [← hx, parents_of_node? hself, parents_of_none hfree, hparents]
    · unfold parents
      rw [node?_put_of_ne w n hx]
  · intro x
    by_cases hx : id = x
    · rw [← hx, children_of_node? hself, children_of_none hfree, hchildren]
    · unfold children
      rw [node?_put_of_ne w n hx]

theorem linkAll (h : w.Mutual) (hc : (w.node? c).isSome = true) {parents : List NodeId}
    (hparents : forall p, p ∈ parents -> (w.node? p).isSome = true ∧ p ≠ c) :
    (w.linkAll c parents).Mutual := by
  induction parents generalizing w with
  | nil => exact h
  | cons p parents ih =>
      have hp := hparents p List.mem_cons_self
      have hsome : forall x, ((w.link c p).node? x).isSome = (w.node? x).isSome :=
        isSome_node?_linkAll w c [p]
      apply ih (h.link hc hp.1 hp.2)
      · rw [hsome]
        exact hc
      · intro q hq
        rw [hsome]
        exact hparents q (List.mem_cons_of_mem p hq)

end Mutual

def Leads (w : Workspace) : Edit → Prop
  | .compute _ _ _ arguments => forall a, a ∈ arguments -> (w.node? a).isSome = true
  | .link child parent => (w.node? child).isSome = true ∧ (w.node? parent).isSome = true
  | .parameter _ p _ => (w.node? p).isSome = true
  | _ => True

theorem Mutual.edit (h : w.Mutual) (hadmits : w.Admits e) (hleads : w.Leads e) :
    (w.edit e).Mutual := by
  have hsome : forall {id : NodeId} {n : Node}, w.node? id = some n ->
      (w.node? id).isSome = true := by
    intro id n hn
    rw [hn]
    rfl
  cases e with
  | reserve =>
      apply h.congr
      · intro x
        unfold Workspace.parents
        rw [edit, node?_reserve]
      · intro x
        unfold Workspace.children
        rw [edit, node?_reserve]
  | report m => exact h.congr (fun _ => rfl) fun _ => rfl
  | place id n =>
      rcases hadmits with ⟨hid, hfree, hmade⟩
      apply h.put hid hfree
      · cases hmade <;> rfl
      · cases hmade <;> rfl
  | compute b id n arguments =>
      rcases hadmits with ⟨hid, hfree, ⟨dim, v, o, extras, reps, rfl⟩, _⟩
      apply (h.put hid hfree rfl rfl).linkAll
      · rw [node?_put_self w _ hid]
        rfl
      · intro a ha
        have ha' := hleads a ha
        have hne : id ≠ a := by
          rintro rfl
          rw [hfree] at ha'
          cases ha'
        rw [node?_put_of_ne w _ hne]
        exact ⟨ha', Ne.symm hne⟩
  | link c q => exact h.link hleads.1 hleads.2 hadmits
  | unlink c q => exact h.unlink c q
  | attach id t v =>
      rcases hadmits with ⟨n, d, m, hn, _, _, hm, _, _, hne, _⟩
      -- Only the link in the middle touches edges.
      have hrole := h.update id (Node.mapDistribution (Distribution.setTarget (some t)))
        (fun n => Node.parents_mapDistribution n _) fun n => Node.children_mapDistribution
      refine ((hrole.link ?_ ?_ hne).update id _ ?_ ?_).update t _ ?_ ?_
      · rw [node?_update, Option.isSome_map]
        exact hsome hn
      · rw [node?_update, Option.isSome_map]
        exact hsome hm
      all_goals exact fun _ => rfl
  | detach id t =>
      refine ((h.unlink id t).update t _ ?_ ?_).update id _ ?_ ?_
      · exact fun _ => rfl
      · exact fun _ => rfl
      · intro n
        exact Node.parents_mapDistribution n _
      · intro n
        exact Node.children_mapDistribution
  | parameter id q name =>
      rcases hadmits with ⟨n, d, hn, _, hne⟩
      apply (h.link (hsome hn) hleads hne).update id
      · intro n
        exact Node.parents_mapDistribution n _
      · intro n
        exact Node.children_mapDistribution
  | user id y =>
      apply h.update id
      · intro n
        exact Node.parents_mapDistribution n _
      · intro n
        exact Node.children_mapDistribution
  | value id v => exact h.update id _ (fun _ => rfl) fun _ => rfl

/-!
# Nodes only
-/

def HasNoStrays (w : Workspace) : Prop :=
  forall x n, w.node? x = some n -> n.strays = []

namespace HasNoStrays

theorem update (h : w.HasNoStrays) (id : NodeId) (f : Node → Node)
    (hf : forall n, (f n).strays = n.strays) : (w.update id f).HasNoStrays := by
  intro x n' hn'
  rcases node?_update_some hn' with ⟨n, hn, rfl⟩
  split
  · rw [hf]
    exact h x n hn
  · exact h x n hn

theorem link (h : w.HasNoStrays) (c p : NodeId) : (w.link c p).HasNoStrays := by
  refine (h.update c (Node.addParent p) ?_).update p (Node.addChild c) ?_
  · intro n
    rw [Node.addParent_eq]
  · intro n
    rw [Node.addChild_eq]

theorem linkAll (h : w.HasNoStrays) (c : NodeId) (parents : List NodeId) :
    (w.linkAll c parents).HasNoStrays := by
  induction parents generalizing w with
  | nil => exact h
  | cons p parents ih => exact ih (h.link c p)

theorem unlink (h : w.HasNoStrays) (c p : NodeId) : (w.unlink c p).HasNoStrays :=
  (h.update c (Node.removeParent p) fun _ => rfl).update p (Node.removeChild c) fun _ => rfl

theorem put (h : w.HasNoStrays) {id : NodeId} (hid : id < w.nodes.length)
    (hn : n.strays = []) : (w.put id n).HasNoStrays := by
  intro x m hm
  by_cases hx : id = x
  · rw [← hx, node?_put_self w n hid] at hm
    cases hm
    exact hn
  · rw [node?_put_of_ne w n hx] at hm
    exact h x m hm

theorem edit (h : w.HasNoStrays) (hadmits : w.Admits e) : (w.edit e).HasNoStrays := by
  have hrole : forall (f : Distribution → Distribution) (n : Node),
      (n.mapDistribution f).strays = n.strays := by
    intro f n
    rw [Node.mapDistribution_eq]
  cases e with
  | reserve =>
      intro x n hn
      rw [Workspace.edit, node?_reserve] at hn
      exact h x n hn
  | report m => exact h
  | place id n =>
      rcases hadmits with ⟨hid, _, hmade⟩
      apply h.put hid
      cases hmade <;> rfl
  | compute b id n arguments =>
      rcases hadmits with ⟨hid, _, ⟨dim, v, o, extras, reps, rfl⟩, _⟩
      exact HasNoStrays.linkAll (h.put hid rfl) id arguments
  | link c q => exact h.link c q
  | unlink c q => exact h.unlink c q
  | attach id t v =>
      refine (((h.update id _ ?_).link id t).update id _ ?_).update t _ ?_
      · exact hrole _
      · exact fun _ => rfl
      · exact fun _ => rfl
  | detach id t =>
      refine ((h.unlink id t).update t _ ?_).update id _ ?_
      · exact fun _ => rfl
      · exact hrole _
  | parameter id q name => exact (h.link id q).update id _ (hrole _)
  | user id y => exact h.update id _ (hrole _)
  | value id v => exact h.update id _ fun _ => rfl

end HasNoStrays

/-!
# Closed workspaces
-/

def Closed (w : Workspace) : Prop :=
  forall x y, y ∈ w.neighbours x -> (w.node? y).isSome = true

theorem mem_neighbours : y ∈ w.neighbours x ↔ y ∈ w.parents x ∨ y ∈ w.children x := by
  unfold neighbours
  exact List.mem_append

theorem Mutual.closed (h : w.Mutual) : w.Closed := by
  intro x y hy
  rcases mem_neighbours.mp hy with hparent | hchild
  · rcases mem_children.mp ((h.agree y x).mp hparent) with ⟨n, hn, _⟩
    rw [hn]
    rfl
  · rcases mem_parents.mp ((h.agree x y).mpr hchild) with ⟨n, hn, _⟩
    rw [hn]
    rfl

theorem isSome_edit (hadmits : w.Admits e) (h : (w.node? x).isSome = true) :
    ((w.edit e).node? x).isSome = true := by
  rcases Option.isSome_iff_exists.mp h with ⟨n, hn⟩
  rcases exists_node?_edit hadmits hn with ⟨n', hn', _⟩
  rw [hn']
  rfl

theorem Edits.isSome {P : Workspace → Edit → Prop} (h : Edits P w v)
    (hx : (w.node? x).isSome = true) : (v.node? x).isSome = true := by
  apply h.preserves (I := fun v => (v.node? x).isSome = true) hx
  intro u e hu hadmits _
  exact isSome_edit hadmits hu

end Workspace
end DensityGraph

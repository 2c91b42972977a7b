import Mathlib.Data.Set.Function
import DensityGraph.Proofs.Evaluation.Matched
import DensityGraph.Proofs.Evaluation.Terms
/-!
# Graphs whose nodes are numbered differently

The numbers of nodes say in which order they were made and how a graph is sorted.  Graphs
that agree in everything else evaluate to the same tensors, node by node, and have the same
terms.
-/

namespace DensityGraph

variable {α : Type} [Scalar α]

/-!
# The same model under other numbers
-/

/-- The same distribution; its parameters have the same names and may be listed in another
order. -/
structure Distribution.Renamed (σ : NodeId → NodeId) (r r' : Distribution) : Prop where
  family : r'.family = r.family
  support : r'.support = r.support
  truncation : r'.truncation = r.truncation
  names : (r.parameters.map Prod.fst).Nodup
  parameters : r'.parameters.Perm (r.parameters.map fun q => (q.1, σ q.2))
  target : r'.target = r.target.map σ

/-- The same role, played by means of the renamed nodes. -/
inductive Role.Renamed (σ : NodeId → NodeId) : Role → Role → Prop where
  | data : Renamed σ .data .data
  | operation (o : Operation) (arguments : List NodeId) (extras : List Value) :
      Renamed σ (.operation o arguments extras) (.operation o (arguments.map σ) extras)
  | latent (b : Interval) (c : Constraint) (size : Nat) :
      Renamed σ (.latent b c size) (.latent b c size)
  | distribution (r r' : Distribution) : r.Renamed σ r' ->
      Renamed σ (.distribution r) (.distribution r')

/-- The same node apart from the numbers of the nodes that it is linked to. -/
structure Node.Renamed (σ : NodeId → NodeId) (n n' : Node) : Prop where
  dim : n'.dim = n.dim
  role : n.role.Renamed σ n'.role
  parents : n'.parents.Perm (n.parents.map σ)
  data : n.isData = true -> n'.value.array = n.value.array

/-- A graph and its image, whose nodes have other numbers and may be in another order. -/
structure Dag.Renamed (σ : NodeId → NodeId) (d : Dag) (w : Workspace) (d' : Dag)
    (w' : Workspace) : Prop where
  settings : w'.settings = w.settings
  wide : w'.wide = w.wide
  bijective : Set.BijOn σ {id | id ∈ d.nodes} {id | id ∈ d'.nodes}
  nodes : forall id, id ∈ d.nodes ->
    ∃ n n', w.node? id = some n ∧ w'.node? (σ id) = some n' ∧ n.Renamed σ n'

/-- The data nodes of a graph and their images are fed with the same values, and the variables
have the same free tensors. -/
structure Dag.SameInputs (σ : NodeId → NodeId) (d : Dag) (w : Workspace)
    (fed fed' : List (NodeId × Value))
    (free free' : NodeId → Option (Except Refusal (Tensor α))) : Prop where
  data : forall id, id ∈ d.data w -> fed'.lookup (σ id) = fed.lookup id
  latents : forall id, id ∈ d.latents w -> free' (σ id) = free id

section Nodes

variable {σ : NodeId → NodeId} {n n' : Node} {q : NodeId}

theorem Role.Renamed.exists_reads {role role' : Role} (h : role.Renamed σ role')
    (hq : q ∈ role'.reads) : ∃ r, r ∈ role.reads ∧ σ r = q := by
  cases h with
  | data => cases hq
  | latent b c size => cases hq
  | operation o arguments extras => exact List.mem_map.mp hq
  | distribution r r' h =>
      rcases List.mem_append.mp hq with htarget | hparameters
      · rw [h.target] at htarget
        cases ht : r.target with
        | none =>
            rw [ht] at htarget
            cases htarget
        | some t =>
            rw [ht, Option.map_some, Option.toList_some, List.mem_singleton] at htarget
            refine ⟨t, ?_, htarget.symm⟩
            rw [Role.reads, ht]
            exact List.mem_append.mpr (Or.inl (List.mem_singleton.mpr rfl))
      · have hmem := (h.parameters.map Prod.snd).mem_iff.mp hparameters
        rw [List.map_map] at hmem
        rcases List.mem_map.mp hmem with ⟨p, hp, rfl⟩
        exact ⟨p.2, List.mem_append.mpr (Or.inr (List.mem_map.mpr ⟨p, hp, rfl⟩)), rfl⟩

theorem Node.Renamed.isData (h : n.Renamed σ n') : n'.isData = n.isData := by
  have hrole := h.role
  unfold Node.isData
  generalize n.role = role at hrole
  generalize n'.role = role' at hrole
  cases hrole <;> rfl

theorem Node.Renamed.feedable (h : n.Renamed σ n') (hdata : n.isData = true) {v : Value}
    (hv : n.Feedable v) : n'.Feedable v := by
  cases hv with
  | own =>
      rw [← h.data hdata]
      exact Node.Feedable.own
  | given t rows ht =>
      rw [← h.dim] at ht
      exact Node.Feedable.given t rows ht

theorem Node.Renamed.isLatent (h : n.Renamed σ n') : n'.isLatent = n.isLatent := by
  have hrole := h.role
  unfold Node.isLatent
  generalize n.role = role at hrole
  generalize n'.role = role' at hrole
  cases hrole <;> rfl

theorem Node.Renamed.distribution? (h : n.Renamed σ n') :
    (n.distribution? = none ∧ n'.distribution? = none) ∨
      ∃ r r', n.distribution? = some r ∧ n'.distribution? = some r' ∧ r.Renamed σ r' := by
  have hrole := h.role
  unfold Node.distribution?
  generalize n.role = role at hrole
  generalize n'.role = role' at hrole
  cases hrole with
  | distribution r r' hsame => exact Or.inr ⟨r, r', rfl, rfl, hsame⟩
  | _ => exact Or.inl ⟨rfl, rfl⟩

theorem Node.Renamed.isDistribution (h : n.Renamed σ n') :
    n'.isDistribution = n.isDistribution := by
  unfold Node.isDistribution
  rcases h.distribution? with ⟨hnone, hnone'⟩ | ⟨r, r', hr, hr', _⟩
  · rw [hnone, hnone']
  · rw [hr, hr']
    rfl

theorem Node.Renamed.freeSize (h : n.Renamed σ n') : n'.freeSize = n.freeSize := by
  have hrole := h.role
  unfold Node.freeSize
  generalize n.role = role at hrole
  generalize n'.role = role' at hrole
  cases hrole <;> rfl

end Nodes

/-!
# Densities

A density reads the nodes of a list in some order.  Renaming permutes the list and leaves the
arguments at the nodes the same.
-/

section Densities

variable {β : Type}

theorem all_congr {p q : β → Bool} {xs : List β} (h : forall x, x ∈ xs -> p x = q x) :
    xs.all p = xs.all q := by
  rw [Bool.eq_iff_iff, List.all_eq_true, List.all_eq_true]
  exact forall₂_congr fun x hx => by rw [h x hx]

theorem lookup_perm {pairs pairs' : List (String × β)} (hnodup : (pairs.map Prod.fst).Nodup)
    (h : pairs'.Perm pairs) (k : String) : pairs'.lookup k = pairs.lookup k := by
  have hnodup' : (pairs'.map Prod.fst).Nodup := (h.map Prod.fst).nodup_iff.mpr hnodup
  apply Option.ext
  intro v
  constructor
  · intro hv
    exact lookup_of_mem hnodup (h.mem_iff.mp (Distribution.mem_of_lookup hv))
  · intro hv
    exact lookup_of_mem hnodup' (h.mem_iff.mpr (Distribution.mem_of_lookup hv))

end Densities

namespace Argument

inductive Same : Argument α → Argument α → Prop where
  | refl (a : Argument α) : Same a a
  | density (id id' : NodeId) : Same (.density id) (.density id')

variable {a b : Argument α}

omit [Scalar α] in
theorem same_rename (σ : NodeId → NodeId) (a : Argument α) : Same a (a.rename σ) := by
  cases a with
  | density id => exact Same.density id (σ id)
  | tensor t => exact Same.refl _
  | extra x => exact Same.refl _

theorem Same.batch? (h : Same a b) : Batched.batch? a = Batched.batch? b := by
  cases h <;> rfl

theorem Same.toTensor (h : Same a b) : a.toTensor = b.toTensor := by
  cases h <;> rfl

theorem Same.toRows (h : Same a b) (n : Nat) :
    Same (Batched.toRows n a) (Batched.toRows n b) := by
  cases h with
  | refl => exact Same.refl _
  | density id id' => exact Same.density id id'

end Argument

namespace Distribution.Renamed

variable {σ : NodeId → NodeId} {r r' : Distribution} {w w' : Workspace} {id id' : NodeId}
  {n n' : Node} {x x' : Argument α} {f f' : NodeId → Argument α}

theorem perm_nodes (h : r.Renamed σ r') :
    (r'.parameters.map Prod.snd).Perm ((r.parameters.map Prod.snd).map σ) := by
  have hmap := h.parameters.map Prod.snd
  rw [List.map_map] at hmap ⊢
  exact hmap

theorem familyParameters (h : r.Renamed σ r')
    (hsame : forall q, q ∈ r.parameters.map Prod.snd -> Argument.Same (f q) (f' (σ q))) :
    r'.familyParameters (r'.parameters.map fun q => (q.1, f' q.2)) =
      r.familyParameters (r.parameters.map fun q => (q.1, f q.2)) := by
  unfold Distribution.familyParameters
  rw [h.family]
  congr 1
  funext name
  have hnodup : ((r.parameters.map fun q => (q.1, σ q.2)).map Prod.fst).Nodup := by
    rw [List.map_map]
    exact h.names
  rw [lookup_map, lookup_map, lookup_perm hnodup h.parameters, lookup_map]
  cases hname : r.parameters.lookup name with
  | none => rfl
  | some q =>
      have hq : q ∈ r.parameters.map Prod.snd :=
        List.mem_map.mpr ⟨_, mem_of_lookup hname, rfl⟩
      exact (hsame q hq).toTensor.symm

theorem densityOf (id id' : NodeId) (h : r.Renamed σ r') (hsettings : w'.settings = w.settings)
    (hwide : w'.wide = w.wide) (hdim : n'.dim = n.dim) (hx : Argument.Same x x')
    (hsame : forall q, q ∈ r.parameters.map Prod.snd -> Argument.Same (f q) (f' (σ q))) :
    r'.densityOf w' id' n' (x' :: (r'.parameters.map Prod.snd).map f') =
      r.densityOf w id n (x :: (r.parameters.map Prod.snd).map f) := by
  have hparameters := h.familyParameters hsame
  unfold Distribution.densityOf
  simp only [zip_parameters]
  unfold Distribution.logDensity Distribution.logMass
  rw [hparameters, hx.toTensor, h.family, h.truncation, h.support, hsettings, hwide, hdim]
  cases r.truncation <;> rfl

theorem reconciled (h : r.Renamed σ r') (hsettings : w'.settings = w.settings)
    (hwide : w'.wide = w.wide) (hdim : n'.dim = n.dim) (hx : Argument.Same x x')
    (hsame : forall q, q ∈ r.parameters.map Prod.snd -> Argument.Same (f q) (f' (σ q))) :
    (Batched.reconciled (x' :: (r'.parameters.map Prod.snd).map f') >>=
        r'.densityOf w' id' n') =
      (Batched.reconciled (x :: (r.parameters.map Prod.snd).map f) >>= r.densityOf w id n) := by
  have hsizes : Batched.sizes (x' :: (r'.parameters.map Prod.snd).map f') =
      Batched.sizes (x :: (r.parameters.map Prod.snd).map f) := by
    apply Batched.sizes_congr
    have hbatches : (((r.parameters.map Prod.snd).map σ).map f').filterMap Batched.batch? =
        ((r.parameters.map Prod.snd).map f).filterMap Batched.batch? := by
      generalize r.parameters.map Prod.snd = qs at hsame ⊢
      rw [List.map_map, List.filterMap_map, List.filterMap_map]
      apply List.filterMap_congr
      intro q hq
      exact (hsame q hq).batch?.symm
    have hperm := ((h.perm_nodes.map f').cons x').filterMap Batched.batch?
    rw [List.filterMap_cons, List.filterMap_cons, hbatches] at hperm
    rw [List.filterMap_cons, List.filterMap_cons, hx.batch?]
    exact hperm
  unfold Batched.reconciled
  rcases Batched.reconcile_congr hsizes with ⟨g, hg, hok', hok⟩ | ⟨sizes, herror', herror⟩
  · rw [hok', hok]
    have hrows : forall {a b : Argument α}, Argument.Same a b -> Argument.Same (g a) (g b) := by
      intro a b hab
      rcases hg with rfl | ⟨k, rfl⟩
      · exact hab
      · exact hab.toRows k
    have hparameters : forall q, q ∈ r.parameters.map Prod.snd ->
        Argument.Same ((g ∘ f) q) ((g ∘ f') (σ q)) := fun q hq => hrows (hsame q hq)
    have hdensity := densityOf id id' h hsettings hwide hdim (hrows hx) hparameters
    rw [← List.map_map, ← List.map_map] at hdensity
    exact hdensity
  · rw [herror', herror]
    rfl

end Distribution.Renamed

/-!
# Nodes of both graphs
-/

theorem Settings.toOption_validate (s : Settings) (label label' : NodeId → String)
    (wide : Bool) : (s.validate label wide).toOption = (s.validate label' wide).toOption := by
  unfold validate
  generalize (isText "float32" s.floatType || isText "float64" s.floatType) = known
  generalize (isText "float64" s.floatType && !wide) = narrow
  generalize lessThanOne s.defaultChains = few
  cases known with
  | false => rfl
  | true =>
      cases narrow with
      | true => rfl
      | false =>
          cases few with
          | error r => rfl
          | ok few => cases few <;> rfl

/-- A node gets its entries if it has a tensor and, as a variable, a Jacobian, and what is fed
for it fits. -/
theorem Workspace.obstructed_iff [CustomCode α] {w : Workspace} {fed : List (NodeId × Value)}
    {free : NodeId → Option (Except Refusal (Tensor α))} {id : NodeId} {n : Node}
    (hn : w.node? id = some n) :
    w.Obstructed fed free id ↔ (n.isDistribution = false ∧ w.evaluate fed free id = none) ∨
      (n.isLatent = true ∧ w.adjustment free id = none) ∨ ¬w.FitsFeed fed id := by
  rw [← has_of_node? (p := Node.isDistribution) hn, ← has_of_node? (p := Node.isLatent) hn]
  constructor
  · rintro (hnone | ⟨hkind, hnone⟩ | ⟨hlatent, hnone⟩ | hfits)
    · rw [hn] at hnone
      cases hnone
    · exact Or.inl ⟨hkind, hnone⟩
    · exact Or.inr (Or.inl ⟨hlatent, hnone⟩)
    · exact Or.inr (Or.inr hfits)
  · rintro (⟨hkind, hnone⟩ | ⟨hlatent, hnone⟩ | hfits)
    · exact Obstructed.value hkind hnone
    · exact Obstructed.adjustment hlatent hnone
    · exact Obstructed.shape hfits

namespace Dag.Renamed

open Workspace

variable {σ : NodeId → NodeId} {d d' : Dag} {w w' : Workspace} {fed fed' : List (NodeId × Value)}
  {free free' : NodeId → Option (Except Refusal (Tensor α))} {id : NodeId}

theorem readsParents (h : d.Renamed σ w d' w') (hreads : d.ReadsParents w) :
    d'.ReadsParents w' := by
  intro id' m hid' hm q hq
  rcases h.bijective.surjOn hid' with ⟨id, hid, rfl⟩
  rcases h.nodes id hid with ⟨n, n', hn, hn', hsame⟩
  rw [hn'] at hm
  cases hm
  rcases hsame.role.exists_reads hq with ⟨r, hr, rfl⟩
  exact hsame.parents.mem_iff.mpr (List.mem_map.mpr ⟨r, hreads id n hid hn r hr, rfl⟩)

theorem select_perm (h : d.Renamed σ w d' w') (hnodup : d.nodes.Nodup)
    (hnodup' : d'.nodes.Nodup) {p : Node → Bool}
    (hp : forall n n', n.Renamed σ n' -> p n' = p n) :
    (d'.select w' p).Perm ((d.select w p).map σ) := by
  have hhas : forall id, id ∈ d.nodes -> w'.has p (σ id) = w.has p id := by
    intro id hid
    rcases h.nodes id hid with ⟨n, n', hn, hn', hsame⟩
    rw [has_of_node? hn, has_of_node? hn', hp n n' hsame]
  have hmap : ((d.select w p).map σ).Nodup := by
    apply List.Nodup.map_on _ (hnodup.filter _)
    intro a ha b hb heq
    exact h.bijective.injOn (mem_select.mp ha).1 (mem_select.mp hb).1 heq
  have hselect : (d'.select w' p).Nodup := hnodup'.filter _
  rw [List.perm_ext_iff_of_nodup hselect hmap]
  intro id'
  rw [List.mem_map]
  constructor
  · intro hid'
    rcases mem_select.mp hid' with ⟨hmem, hkind⟩
    rcases h.bijective.surjOn hmem with ⟨id, hid, rfl⟩
    exact ⟨id, mem_select.mpr ⟨hid, (hhas id hid).symm.trans hkind⟩, rfl⟩
  · rintro ⟨id, hid, rfl⟩
    rcases mem_select.mp hid with ⟨hmem, hkind⟩
    exact mem_select.mpr ⟨h.bijective.mapsTo hmem, (hhas id hmem).trans hkind⟩

theorem distributions_perm (h : d.Renamed σ w d' w') (hnodup : d.nodes.Nodup)
    (hnodup' : d'.nodes.Nodup) : (d'.distributions w').Perm ((d.distributions w).map σ) :=
  h.select_perm hnodup hnodup' fun _ _ hsame => hsame.isDistribution

theorem latents_perm (h : d.Renamed σ w d' w') (hnodup : d.nodes.Nodup)
    (hnodup' : d'.nodes.Nodup) : (d'.latents w').Perm ((d.latents w).map σ) :=
  h.select_perm hnodup hnodup' fun _ _ hsame => hsame.isLatent

theorem tensorOf (h : d.Renamed σ w d' w') (v : Value) :
    w'.tensorOf (α := α) v = w.tensorOf v := by
  unfold Workspace.tensorOf
  rw [h.settings, h.wide]

/-!
# Inputs of both graphs
-/

omit [Scalar α] in
theorem sameInputs_current (h : d.Renamed σ w d' w')
    (hfree : forall id, id ∈ d.latents w -> free' (σ id) = free id) :
    d.SameInputs σ w (d.currentFeed w) (d'.currentFeed w') free free' where
  data := by
    intro id hid
    rcases mem_select.mp hid with ⟨hmem, hkind⟩
    rcases h.nodes id hmem with ⟨n, n', hn, hn', hsame⟩
    rw [has_of_node? hn] at hkind
    rw [lookup_currentFeed hmem hn hkind, lookup_currentFeed (h.bijective.mapsTo hmem) hn'
      (hsame.isData.trans hkind), hsame.data hkind]
  latents := hfree

omit [Scalar α] in
theorem feedsData (h : d.Renamed σ w d' w') (hinputs : d.SameInputs σ w fed fed' free free')
    (hfeeds : w.FeedsData d fed) : w'.FeedsData d' fed' := by
  intro id' m hid' hm hdata
  rcases h.bijective.surjOn hid' with ⟨id, hid, rfl⟩
  rcases h.nodes id hid with ⟨n, n', hn, hn', hsame⟩
  rw [hn', Option.some.injEq] at hm
  subst hm
  rw [hsame.isData] at hdata
  rcases hfeeds id n hid hn hdata with ⟨v, hv, hfeedable⟩
  refine ⟨v, ?_, hsame.feedable hdata hfeedable⟩
  rw [hinputs.data id (mem_data hid hn hdata), hv]

/-!
# Arguments of operations
-/

structure Matches (σ : NodeId → NodeId) (d : Dag) (w : Workspace)
    (values values' : NodeId → Option (Tensor α)) (a : NodeId) : Prop where
  mem : a ∈ d.nodes
  value : values' (σ a) = values a
  parameters : forall r, (w.node? a).bind Node.distribution? = some r ->
    forall q, q ∈ r.parameters.map Prod.snd -> q ∈ d.nodes ∧ values' (σ q) = values q

section Arguments

variable {values values' : NodeId → Option (Tensor α)} {a : NodeId}

omit [Scalar α] in
theorem argumentFrom_rename (ha : values' (σ a) = values a) :
    argumentFrom values' (σ a) = (argumentFrom values a).rename σ := by
  unfold argumentFrom
  rw [ha]
  cases values a <;> rfl

omit [Scalar α] in
theorem isSettled (h : d.Renamed σ w d' w') (hmem : a ∈ d.nodes)
    (ha : values' (σ a) = values a) :
    w'.isSettled values' (σ a) = w.isSettled values a := by
  rcases h.nodes a hmem with ⟨n, n', hn, hn', hsame⟩
  unfold Workspace.isSettled
  rw [has_of_node? hn, has_of_node? hn', hsame.isDistribution, ha]

omit [Scalar α] in
theorem isReadable (h : d.Renamed σ w d' w') (ha : Matches σ d w values values' a) :
    w'.isReadable values' (σ a) = w.isReadable values a := by
  rcases h.nodes a ha.mem with ⟨n, n', hn, hn', hsame⟩
  have hparameters := ha.parameters
  unfold Workspace.isReadable
  rw [hn, Option.bind_some] at hparameters
  rw [hn, hn', Option.bind_some, Option.bind_some]
  rcases hsame.distribution? with ⟨hnone, hnone'⟩ | ⟨r, r', hr, hr', hrenamed⟩
  · rw [hnone, hnone']
    exact congrArg Option.isSome ha.value
  · rw [hr, hr']
    change (r'.parameters.map Prod.snd).all _ = (r.parameters.map Prod.snd).all _
    rw [hrenamed.perm_nodes.all_eq, List.all_map]
    apply all_congr
    intro q hq
    exact h.isSettled (hparameters r hr q hq).1 (hparameters r hr q hq).2

theorem densityFrom (h : d.Renamed σ w d' w') (ha : Matches σ d w values values' a) :
    w'.densityFrom values' (σ a) = w.densityFrom values a := by
  rcases h.nodes a ha.mem with ⟨n, n', hn, hn', hsame⟩
  have hparameters := ha.parameters
  funext x
  unfold Workspace.densityFrom
  rw [hn, Option.bind_some] at hparameters
  rw [hn, hn']
  rcases hsame.distribution? with ⟨hnone, hnone'⟩ | ⟨r, r', hr, hr', hrenamed⟩
  · simp only [hnone, hnone']
  · simp only [hr, hr']
    apply hrenamed.reconciled h.settings h.wide hsame.dim (Argument.Same.refl x)
    intro q hq
    rw [argumentFrom_rename (hparameters r hr q hq).2]
    exact Argument.same_rename σ _

theorem apply_arguments [CustomCode α] (h : d.Renamed σ w d' w') {arguments : List NodeId}
    (harguments : forall a, a ∈ arguments -> Matches σ d w values values' a) (o : Operation)
    (extras : List Value) :
    ((Batched.reconcile ((arguments.map σ).map (argumentFrom values') ++
        w'.given extras)).toOption.bind fun args =>
          (o.apply (w'.densityFrom values') args).toOption) =
      (Batched.reconcile (arguments.map (argumentFrom values) ++ w.given extras)).toOption.bind
        fun args => (o.apply (w.densityFrom values) args).toOption := by
  have hlist : (arguments.map σ).map (argumentFrom values') ++ w'.given extras =
      (arguments.map (argumentFrom values) ++ w.given extras).map (Argument.rename σ) := by
    have hextras : (w.given (α := α) extras).map (Argument.rename σ) = w'.given extras := by
      unfold Workspace.given
      rw [h.wide, List.map_map]
      rfl
    rw [List.map_append, hextras, List.map_map, List.map_map]
    exact congrArg (· ++ w'.given extras) (List.map_congr_left fun a ha =>
      argumentFrom_rename (harguments a ha).value)
  rw [hlist, Argument.reconcile_rename]
  cases hargs : Batched.reconcile (arguments.map (argumentFrom values) ++ w.given extras) with
  | error sizes => rfl
  | ok args =>
      refine congrArg Except.toOption (o.apply_rename ?_)
      intro q hq
      have hmem := mem_of_density_mem (Argument.density_mem_of_reconcile hargs hq)
      exact h.densityFrom (harguments q hmem)

end Arguments

/-!
# Values and Jacobians
-/

variable [CustomCode α]

theorem tensorFrom (h : d.Renamed σ w d' w') (hinputs : d.SameInputs σ w fed fed' free free')
    {values values' : NodeId → Option (Tensor α)} {n : Node} (hid : id ∈ d.nodes)
    (hn : w.node? id = some n)
    (harguments : forall a, a ∈ n.arguments -> Matches σ d w values values' a) :
    w'.tensorFrom fed' free' values' (σ id) = w.tensorFrom fed free values id := by
  rcases h.nodes id hid with ⟨m, n', hm, hn', hsame⟩
  rw [hn, Option.some.injEq] at hm
  subst hm
  have hrole := hsame.role
  unfold Workspace.tensorFrom
  rw [hn, hn']
  simp only
  unfold Node.arguments at harguments
  generalize hr : n.role = role at hrole harguments ⊢
  generalize hr' : n'.role = role' at hrole ⊢
  cases hrole with
  | data =>
      have hdata := Node.isData_of_role hr
      simp only
      unfold dataTensor
      rw [h.settings, hinputs.data id (mem_data hid hn hdata), hsame.data hdata, h.tensorOf]
      cases fed.lookup id with
      | none => rfl
      | some v => simp only [h.tensorOf]
  | operation o arguments extras =>
      have hreadable : (arguments.map σ).all (w'.isReadable values') =
          arguments.all (w.isReadable values) := by
        rw [List.all_map]
        exact all_congr fun a ha => h.isReadable (harguments a ha)
      simp only
      rw [hreadable]
      exact congrArg (fun t => if arguments.all (w.isReadable values) then t else none)
        (h.apply_arguments harguments o extras)
  | latent b c size =>
      simp only
      rw [hinputs.latents id (mem_latents hid hn hr), hsame.dim]
  | distribution r r' _ => rfl

theorem evaluate (h : d.Renamed σ w d' w') (hsorts : w.Sorts d) (hreads : d.ReadsParents w)
    (hinputs : d.SameInputs σ w fed fed' free free') :
    forall id, id ∈ d.nodes -> w'.evaluate fed' free' (σ id) = w.evaluate fed free id := by
  -- Operations read the parameters of densities as well, which are parents of their parents.
  have hboth := hsorts.parentsFirst.induction (P := fun id =>
    w'.evaluate fed' free' (σ id) = w.evaluate fed free id ∧
      forall q, q ∈ w.parents id -> w'.evaluate fed' free' (σ q) = w.evaluate fed free q) (by
    intro id hid ih
    refine ⟨?_, fun q hq => (ih q hq).1⟩
    rcases h.nodes id hid with ⟨n, n', hn, hn', hsame⟩
    rw [evaluate_eq, evaluate_eq]
    apply h.tensorFrom hinputs hid hn
    intro a ha
    rcases hreads.findsArguments hsorts hid hn a ha with ⟨hparent, hparameters⟩
    rw [← parents_of_node? hn] at hparent
    have hmem := hsorts.parentsFirst.mem_of_mem hid hparent
    exact ⟨hmem, (ih a hparent).1, fun r hr q hq =>
      ⟨hsorts.parentsFirst.mem_of_mem hmem (hparameters r hr q hq),
        (ih a hparent).2 q (hparameters r hr q hq)⟩⟩)
  exact fun id hid => (hboth id hid).1

omit [CustomCode α] in
theorem adjustment (h : d.Renamed σ w d' w') (hid : id ∈ d.nodes)
    (hfree : id ∈ d.latents w -> free' (σ id) = free id) :
    w'.adjustment free' (σ id) = w.adjustment free id := by
  rcases h.nodes id hid with ⟨n, n', hn, hn', hsame⟩
  have hrole := hsame.role
  unfold Workspace.adjustment
  rw [hn, hn', Option.map_some, Option.map_some]
  generalize hr : n.role = role at hrole
  generalize hr' : n'.role = role' at hrole
  cases hrole with
  | latent b c size => rw [hfree (mem_latents hid hn hr)]
  | data => rfl
  | operation o arguments extras => rfl
  | distribution r r' _ => rfl

/-!
# Passes over both graphs
-/

omit [Scalar α] [CustomCode α] in
theorem acceptsFree_iff (h : d.Renamed σ w d' w') (hid : id ∈ d.nodes)
    (hfree : free' (σ id) = free id) :
    w'.AcceptsFree free' (σ id) ↔ w.AcceptsFree free id := by
  rcases h.nodes id hid with ⟨n, n', hn, hn', hsame⟩
  unfold AcceptsFree
  rw [hn, hn', hfree, Option.map_some, Option.map_some, hsame.freeSize]

omit [Scalar α] [CustomCode α] in
theorem fitsFeed_iff (h : d.Renamed σ w d' w') (hinputs : d.SameInputs σ w fed fed' free free')
    (hid : id ∈ d.nodes) : w'.FitsFeed fed' (σ id) ↔ w.FitsFeed fed id := by
  rcases h.nodes id hid with ⟨n, n', hn, hn', hsame⟩
  by_cases hdata : n.isData = true
  · have hrole := Node.role_of_isData hdata
    have hrole' := Node.role_of_isData (hsame.isData.trans hdata)
    unfold FitsFeed
    rw [hn, hn', h.settings, hinputs.data id (mem_data hid hn hdata)]
    constructor
    · intro hfits m v s hm _
      cases hm
      rw [← hsame.data hdata]
      exact hfits n' v s rfl hrole'
    · intro hfits m v s hm _
      cases hm
      rw [hsame.data hdata]
      exact hfits n v s rfl hrole
  · have hne : n.role ≠ .data := fun hrole => hdata (Node.isData_of_role hrole)
    have hne' : n'.role ≠ .data := fun hrole =>
      hdata (hsame.isData.symm.trans (Node.isData_of_role hrole))
    exact iff_of_true (fitsFeed_of_role hn' hne') (fitsFeed_of_role hn hne)

theorem obstructed_iff (h : d.Renamed σ w d' w') (hsorts : w.Sorts d)
    (hreads : d.ReadsParents w) (hinputs : d.SameInputs σ w fed fed' free free')
    (hid : id ∈ d.nodes) :
    w'.Obstructed fed' free' (σ id) ↔ w.Obstructed fed free id := by
  rcases h.nodes id hid with ⟨n, n', hn, hn', hsame⟩
  rw [Workspace.obstructed_iff hn, Workspace.obstructed_iff hn', hsame.isDistribution,
    hsame.isLatent, h.evaluate hsorts hreads hinputs id hid,
    h.adjustment hid (hinputs.latents id), h.fitsFeed_iff hinputs hid]

theorem completes_iff (h : d.Renamed σ w d' w') (hsorts : w.Sorts d)
    (hnodup' : d'.nodes.Nodup) (hreads : d.ReadsParents w)
    (hinputs : d.SameInputs σ w fed fed' free free') :
    d'.Completes w' fed' free' ↔ d.Completes w fed free := by
  have hsettings : w'.settings.validate w'.written w'.wide = .ok () ↔
      w.settings.validate w.written w.wide = .ok () := by
    rw [h.settings, h.wide, ← toOption_eq_some, ← toOption_eq_some,
      Settings.toOption_validate w.settings w'.written w.written]
  have hlatents := h.latents_perm hsorts.nodup hnodup'
  constructor
  · intro hcompletes
    refine ⟨hsettings.mp hcompletes.settings, ?_, ?_⟩
    · intro id hid
      apply (h.acceptsFree_iff (mem_select.mp hid).1 (hinputs.latents id hid)).mp
      apply hcompletes.frees
      exact hlatents.mem_iff.mpr (List.mem_map.mpr ⟨id, hid, rfl⟩)
    · intro id hid hobstructed
      exact hcompletes.nodes (σ id) (h.bijective.mapsTo hid)
        ((h.obstructed_iff hsorts hreads hinputs hid).mpr hobstructed)
  · intro hcompletes
    refine ⟨hsettings.mpr hcompletes.settings, ?_, ?_⟩
    · intro id' hid'
      rcases List.mem_map.mp (hlatents.mem_iff.mp hid') with ⟨id, hid, rfl⟩
      exact (h.acceptsFree_iff (mem_select.mp hid).1 (hinputs.latents id hid)).mpr
        (hcompletes.frees id hid)
    · intro id' hid' hobstructed
      rcases h.bijective.surjOn hid' with ⟨id, hid, rfl⟩
      exact hcompletes.nodes id hid ((h.obstructed_iff hsorts hreads hinputs hid).mp hobstructed)

/-!
# Terms of both graphs
-/

theorem argumentOf_same (h : d.Renamed σ w d' w') (hsorts : w.Sorts d)
    (hreads : d.ReadsParents w) (hinputs : d.SameInputs σ w fed fed' free free')
    (hid : id ∈ d.nodes) :
    (w.argumentOf fed free id).Same (w'.argumentOf fed' free' (σ id)) := by
  unfold argumentOf
  rw [argumentFrom_rename (h.evaluate hsorts hreads hinputs id hid)]
  exact Argument.same_rename σ _

theorem logTerm (h : d.Renamed σ w d' w') (hsorts : w.Sorts d) (hreads : d.ReadsParents w)
    (hinputs : d.SameInputs σ w fed fed' free free') (hid : id ∈ d.nodes) :
    w'.logTerm fed' free' (σ id) = w.logTerm fed free id := by
  rcases h.nodes id hid with ⟨n, n', hn, hn', hsame⟩
  rcases hsame.distribution? with ⟨hnone, hnone'⟩ | ⟨r, r', hr, hr', hrenamed⟩
  · unfold Workspace.logTerm
    rw [hn, hn']
    change (n'.distribution?).bind _ = (n.distribution?).bind _
    rw [hnone, hnone']
    rfl
  · rw [logTerm_of_distribution hn hr, logTerm_of_distribution hn' hr', hrenamed.target]
    cases ht : r.target with
    | none => rfl
    | some t =>
        have hread : forall q, q ∈ t :: r.parameters.map Prod.snd ->
            (w.argumentOf fed free q).Same (w'.argumentOf fed' free' (σ q)) := by
          intro q hq
          exact h.argumentOf_same hsorts hreads hinputs
            (hreads.mem hsorts hid hn (Node.mem_reads_of_distribution hr ht hq))
        exact congrArg Except.toOption
          (hrenamed.reconciled h.settings h.wide hsame.dim (hread t List.mem_cons_self)
            fun q hq => hread q (List.mem_cons_of_mem t hq))

theorem logTerms (h : d.Renamed σ w d' w') (hsorts : w.Sorts d) (hreads : d.ReadsParents w)
    (hinputs : d.SameInputs σ w fed fed' free free') {ids latents : List NodeId}
    (hids : forall id, id ∈ ids -> id ∈ d.nodes)
    (hlatents : forall id, id ∈ latents -> id ∈ d.nodes) :
    w'.logTerms fed' free' (ids.map σ) (latents.map σ) = w.logTerms fed free ids latents := by
  have hdensities : (ids.map σ).mapM (w'.logTerm fed' free') = ids.mapM (w.logTerm fed free) := by
    rw [List.mapM_map]
    exact mapM_congr fun id hid => h.logTerm hsorts hreads hinputs (hids id hid)
  have hadjustments : (latents.map σ).mapM (w'.adjustment free') =
      latents.mapM (w.adjustment free) := by
    rw [List.mapM_map]
    exact mapM_congr fun id hid => h.adjustment (hlatents id hid) (hinputs.latents id)
  unfold Workspace.logTerms
  rw [hdensities, hadjustments]

theorem jointAt [Scalar.Exact α] (h : d.Renamed σ w d' w') (hsorts : w.Sorts d)
    (hsorts' : w'.Sorts d') (hreads : d.ReadsParents w) (hfeeds : w.FeedsData d fed)
    (hinputs : d.SameInputs σ w fed fed' free free') (adjust : Bool) :
    (d'.jointAt w' fed' free' adjust).toOption = (d.jointAt w fed free adjust).toOption := by
  have hreads' := h.readsParents hreads
  have hfeeds' := h.feedsData hinputs hfeeds
  have hcompletes := h.completes_iff hsorts hsorts'.nodup hreads hinputs
  by_cases hc : d.Completes w fed free
  · rcases hc.exists_environment hsorts hreads hfeeds with ⟨e, he⟩
    rcases (hcompletes.mpr hc).exists_environment hsorts' hreads' hfeeds' with ⟨e', he'⟩
    rcases toOption_jointAt hsorts hreads hfeeds he adjust with ⟨p, hp, hjoint⟩
    rcases toOption_jointAt hsorts' hreads' hfeeds' he' adjust with ⟨p', hp', hjoint'⟩
    rw [h.settings, h.wide, hp] at hp'
    cases hp'
    have hlatents : (if adjust then d'.latents w' else []).Perm
        ((if adjust then d.latents w else []).map σ) := by
      cases adjust with
      | true => exact h.latents_perm hsorts.nodup hsorts'.nodup
      | false => exact List.Perm.refl []
    rw [hjoint', hjoint, logTerms_total_perm
      (h.distributions_perm hsorts.nodup hsorts'.nodup) hlatents,
      h.logTerms hsorts hreads hinputs]
    · intro id hid
      exact (mem_select.mp hid).1
    · intro id hid
      cases adjust with
      | true => exact (mem_select.mp hid).1
      | false => cases hid
  · rw [jointAt_of_not_completes hsorts hreads hfeeds hc,
      jointAt_of_not_completes hsorts' hreads' hfeeds' (mt hcompletes.mp hc)]

end Dag.Renamed
end DensityGraph

import DensityGraph.Proofs.Graph.Axes
import DensityGraph.Proofs.Graph.Reached
/-!
# Shapes after any calls

Whatever is called, a value has the shape of its node, no axis is empty, and none is left
alone.  A node without any axes is built exactly where a call asks for it, with a shape that
is read as an empty sequence.
-/

namespace DensityGraph

def Family.dimArgument? (f : Family) (args : List Value) : Option Value :=
  ((f.signature.map Prod.fst).zip args).lookup "dim"

namespace Action

open Workspace

variable {P : Prop} {w : Workspace}

/-!
# Declarations
-/

theorem gives_newDistribution {family : Family} (name : GivenName) (isDiscrete : Bool)
    (support : Interval) (dim truncation : Value)
    (hP : family.isMatrix = false -> w.HasAxes P -> dim.isPoint = true -> P) :
    Gives P dim.isPoint w (newDistribution family name isDiscrete support dim truncation) := by
  have hsuccess : Ends (newDistribution family name isDiscrete support dim truncation) w
      (fun _ v => KeepsAxes P w v ∧ (dim.isPoint = true -> v.HasPoint)) Fails := by
    unfold newDistribution
    apply Ends.bind (ends_fails (along_checkTruncation (R := KeepsAxes P) name support
      family.hasCdf truncation w))
    intro t v hv
    rw [ends_bind, ends_reserve]
    apply ends_bind_ofExcept
    intro d hd
    have hdim := Value.isDim_toDim hd
    apply Ends.bind (ends_fails ((ends_newTarget family hdim (t.getD support)).and
      (ends_newTarget_node (R := KeepsAxes P) family d (t.getD support))))
    intro target u hu
    rcases hu with ⟨⟨_, hmatrix⟩, role, rfl, rfl⟩
    have haxes : v.HasAxes P -> d.HasAxes P := by
      intro h
      refine ⟨hdim, ?_⟩
      intro hnil
      rw [hnil] at hd hmatrix
      cases hkind : family.isMatrix with
      | true =>
          rcases hmatrix hkind with ⟨m, hm⟩
          cases hm
      | false => exact hP hkind (hv.before h) (Value.isPoint_of_toDim hd)
    rw [ends_bind, ends_put]
    apply Ends.bind (ends_fails (axes_addTarget (P := P) _ _ _))
    intro _ u hu
    rw [ends_pure]
    constructor
    · exact hv.trans ((keepsAxes_put_new haxes haxes).trans hu)
    · intro hpoint
      rw [Value.toDim_of_isPoint hpoint] at hd
      apply hu.hasPoint
      apply hasPoint_put _ (Except.ok.inj hd).symm
      simp [Workspace.reserve, Workspace.put]
  apply (hsuccess.and (atomic_newDistribution (R := KeepsAxes P) family name isDiscrete support
    dim truncation w)).mono
  · intro _ _ h
    exact h.1
  · intro _ _ h
    exact h.2

theorem axes_addParameters (id : NodeId) (parameters : List (String × Value)) :
    Along (KeepsAxes P) (addParameters id parameters) := by
  intro w
  apply Ends.forM (P := fun _ v => KeepsAxes P w v) (keepsAxes_refl w)
  intro _ parameter _ v _ hv
  rcases parameter with ⟨name, x⟩
  apply Ends.bind (((axes_addParameter id x name v).mono (fun _ _ h => hv.trans h)
    fun _ _ h => hv.trans h))
  intro _ u hu
  exact ends_pure.mpr hu

theorem gives_withParameters {family : Family} {name : String} {isDiscrete : Bool}
    {support : Interval} {dim truncation : Value} {parameters : List (String × Value)}
    (hP : family.isMatrix = false -> w.HasAxes P -> dim.isPoint = true -> P) :
    Gives P dim.isPoint w (do
      let id ← newDistribution family name isDiscrete support dim truncation
      addParameters id parameters
      return id) :=
  (gives_newDistribution name isDiscrete support dim truncation hP).bind fun id =>
    (axes_addParameters id parameters).bind fun _ => along_pure id

theorem hasAxes_checkDims {parameters : List NodeId} {target : Value} {ds : List Shape}
    {d : Shape} (hds : w.dims? parameters = some ds)
    (hd : target = .none ∧ Dim.shared ds none = .ok d ∨
      ∃ t, target.toDim = .ok t ∧ Dim.shared ds (some t) = .ok d)
    (hP : target.isPoint = true -> P) (hw : w.HasAxes P) : d.HasAxes P := by
  rcases hd with ⟨_, hshared⟩ | ⟨t, ht, hshared⟩
  · exact Shape.hasAxes_shared hshared (forall_of_dims? hw hds)
  · rw [Shape.eq_of_shared hshared]
    exact Shape.hasAxes_toDim ht hP

theorem gives_checkDims {family : Family} {name : String} {isDiscrete : Bool}
    {support : Interval} {dim truncation : Value} {ps : List NodeId}
    {parameters : List (String × Value)} (hP : w.HasAxes P -> dim.isPoint = true -> P) :
    Gives P dim.isPoint w (do
      let d ← checkDims ps dim
      let id ← newDistribution family name isDiscrete support (.ofShape d) truncation
      addParameters id parameters
      return id) := by
  apply Along.gives (along_checkDims ps dim) (ends_checkDims ps dim)
  intro d v hv _
  rcases hv with ⟨rfl, ds, hds, hd⟩
  apply (gives_withParameters _).weaken
  · intro hpoint
    rcases hd with ⟨rfl, _⟩ | ⟨t, ht, hshared⟩
    · cases hpoint
    · rw [Value.toDim_of_isPoint hpoint] at ht
      rw [Shape.eq_of_shared hshared, ← Except.ok.inj ht]
      rfl
  · intro _ hw hpoint
    exact (hasAxes_checkDims hds hd (hP hw) hw).axes (Value.isPoint_ofShape.mp hpoint)

theorem gives_declareSimple (family : Family) (parameters : List Value) (dim truncation : Value)
    (hP : w.HasAxes P -> dim.isPoint = true -> P) :
    Gives P dim.isPoint w (declareSimple family parameters dim truncation) := by
  unfold declareSimple
  apply Along.gives (Along.mapM along_toNode parameters) (ends_toNodes parameters)
  intro ps v _ hv
  exact gives_checkDims fun h => hP (hv.before h)

theorem gives_declareUniform (min max dim : Value)
    (hP : w.HasAxes P -> dim.isPoint = true -> P) :
    Gives P dim.isPoint w (declareUniform min max dim) := by
  unfold declareUniform
  apply Along.gives (along_fixedNumber "min" min) (ends_fixedNumber "min" min)
  intro l v hv _
  rw [hv.1]
  apply Along.gives (along_fixedNumber "max" max) (ends_fixedNumber "max" max)
  intro u v' hv' _
  rw [hv'.1]
  refine ends_when (keepsAxes_refl _) ?_
  intro _
  apply gives_ofExcept
  intro d hd
  apply (gives_withParameters _).weaken
  · intro hpoint
    rw [Value.toDim_of_isPoint hpoint] at hd
    rw [← Except.ok.inj hd]
    rfl
  · intro _ hw hpoint
    rw [Value.isPoint_ofShape.mp hpoint] at hd
    exact hP hw (Value.isPoint_of_toDim hd)

theorem gives_declareBinomial (size prob dim : Value)
    (hP : w.HasAxes P -> dim.isPoint = true -> P) :
    Gives P dim.isPoint w (declareBinomial size prob dim) := by
  unfold declareBinomial
  apply Along.gives (along_fixedNumber "size" size) (ends_fixedNumber "size" size)
  intro k v hv _
  rw [hv.1]
  refine ends_unless (keepsAxes_refl _) ?_
  intro _
  apply Along.gives (along_toNode (.float k)) (ends_toNode (.float k))
  intro sizeNode v' _ hv'
  apply Along.gives (along_toNode prob) (ends_toNode prob)
  intro p u _ hu
  exact gives_checkDims fun h => hP (hv'.before (hu.before h))

theorem gives_declareLkj (eta dimension : Value) :
    Gives P false w (declareLkj eta dimension) := by
  unfold declareLkj
  apply Along.gives (along_toNode eta) (ends_toNode eta)
  intro e v _ _
  apply Along.gives (along_checkScalar "eta" e) (ends_checkScalar "eta" e)
  intro _ v' _ _
  exact (gives_withParameters nofun).weaken nofun

theorem gives_declareWishart (df sigma : Value) :
    Gives P false w (declareWishart df sigma) := by
  unfold declareWishart
  apply Along.gives (along_toNode df) (ends_toNode df)
  intro k v _ _
  apply Along.gives (along_toNode sigma) (ends_toNode sigma)
  intro s v' _ _
  apply Along.gives (along_checkScalar "df" k) (ends_checkScalar "df" k)
  intro _ u _ _
  apply Along.gives (along_node s) (ends_fails (along_node (R := KeepsAxes P) s u))
  intro n u' _ _
  refine ends_when (keepsAxes_refl _) ?_
  intro _
  exact (gives_withParameters nofun).weaken nofun

/-!
# Declarations by family
-/

theorem lookup_zip_append {names rest : List String} {key : String} {args : List Value}
    (hkey : key ∉ names) (hlength : names.length < args.length) :
    ((names ++ key :: rest).zip args).lookup key = some (args.getD names.length .none) := by
  induction names generalizing args with
  | nil =>
      cases args with
      | nil => cases hlength
      | cons x args => simp
  | cons name names ih =>
      cases args with
      | nil => cases hlength
      | cons x args =>
          have hne : (key == name) = false := by
            rw [beq_eq_false_iff_ne]
            intro heq
            rw [heq] at hkey
            exact hkey List.mem_cons_self
          rw [List.cons_append, List.zip_cons_cons, List.lookup_cons, hne]
          exact ih (fun h => hkey (List.mem_cons_of_mem name h)) (Nat.lt_of_succ_lt_succ hlength)

theorem dimArgument?_eq {family : Family} (hmatrix : family.isMatrix = false)
    (hblank : family ≠ .blank) {args : List Value}
    (hlength : args.length = family.signature.length) :
    family.dimArgument? args = some (args.getD family.parameterNames.length .none) := by
  have hnames : ∃ rest,
      family.signature.map Prod.fst = family.parameterNames ++ "dim" :: rest := by
    cases family <;> first | exact ⟨_, rfl⟩ | exact absurd rfl hblank | cases hmatrix
  have hdim : "dim" ∉ family.parameterNames := by
    cases family <;> decide
  rcases hnames with ⟨rest, hnames⟩
  unfold Family.dimArgument?
  rw [hnames]
  apply lookup_zip_append hdim
  rw [hlength, ← List.length_map (f := Prod.fst), hnames, List.length_append]
  simp

theorem gives_declareBound {family : Family} {args : List Value}
    (hlength : args.length = family.signature.length)
    (hP : w.HasAxes P -> (family.dimArgument? args).any Value.isPoint = true -> P) :
    Gives P ((family.dimArgument? args).any Value.isPoint) w (declareBound family args) := by
  unfold declareBound
  split
  · rw [Gives, ends_bind, ends_get]
    exact gives_ofRefusal fun _ _ => gives_newDistribution _ _ _ _ _ fun _ => hP
  · exact gives_declareUniform _ _ _ hP
  · exact gives_declareBinomial _ _ _ hP
  · exact (gives_declareLkj _ _).weaken nofun
  · exact (gives_declareWishart _ _).weaken nofun
  · rename_i hblank _ _ hlkj hwishart
    have hother : family.isMatrix = false ∧ family ≠ .blank := by
      cases family with
      | blank =>
          match args, hlength with
          | [name, dim, truncation, discrete], _ => exact absurd rfl (hblank _ _ _ _ rfl)
      | lkj =>
          match args, hlength with
          | [eta, dimension], _ => exact absurd rfl (hlkj eta dimension rfl)
      | wishart =>
          match args, hlength with
          | [df, sigma], _ => exact absurd rfl (hwishart df sigma rfl)
      | _ => exact ⟨rfl, nofun⟩
    rw [dimArgument?_eq hother.1 hother.2 hlength] at hP ⊢
    exact gives_declareSimple _ _ _ _ hP

theorem gives_declare (family : Family) (args : List Value) (named : List (String × Value))
    (hP : w.HasAxes P -> ((bindArguments family.signature args named).toOption.bind
      family.dimArgument?).any Value.isPoint = true -> P) :
    Gives P (((bindArguments family.signature args named).toOption.bind
      family.dimArgument?).any Value.isPoint) w (declare family args named) := by
  unfold declare
  apply gives_ofRefusal
  intro xs hxs
  rw [hxs] at hP ⊢
  exact (gives_declareBound (length_bindArguments hxs) hP).bind fun id =>
    (along_distribution id).bind fun _ => along_pure _

end Action

/-!
# Calls
-/

namespace Call

open Workspace DensityGraph.Action

variable {P : Prop} {w : Workspace}

def dim? (c : Call) (w : Workspace) : Option Value :=
  match c with
  | operation _ args dim _ _ _ => sizesFrom? (w.argumentDims? args) dim
  | latent _ _ dim _ => some dim
  | bounded _ dim => some dim
  | declare family args named =>
      (bindArguments family.signature args named).toOption.bind family.dimArgument?
  | _ => none

/-- Whether a call asks for a node without axes. -/
def asksForPoint (c : Call) (w : Workspace) : Bool :=
  (c.dim? w).any Value.isPoint

theorem gives_discard {β : Type} {a : Action β} {asked : Bool} (h : Gives P asked w a) :
    Gives P asked w (do let _ ← a) :=
  h.bind fun _ => along_pure ()

/-- Every call keeps the axes, and one that returns and asks for a node without axes has built
one. -/
theorem gives_perform (c : Call) (hP : c.asksForPoint w = true -> P) :
    Gives P (c.asksForPoint w) w c.perform := by
  cases c with
  | data v => exact gives_discard (along_newData v).unasked
  | operation o args dim extras value reps =>
      exact gives_discard (gives_newOperation o args dim extras value reps fun _ => hP)
  | binary o a b => exact gives_discard (axes_binary o a b).unasked
  | negate a => exact gives_discard (axes_negate a).unasked
  | function name args => exact gives_discard (axes_function name args).unasked
  | latent lower upper dim constraint =>
      exact gives_discard (gives_newVariable lower upper dim constraint fun _ => hP)
  | bounded truncation dim => exact gives_discard (gives_newBounded truncation dim fun _ => hP)
  | declare family args named => exact gives_discard (gives_declare family args named fun _ => hP)
  | observe y user => exact gives_discard (axes_observe y user).unasked
  | addTarget id target => exact (axes_addTarget id target).unasked
  | removeTarget id => exact (axes_removeTarget id).unasked
  | addParameter id parameter name =>
      exact gives_discard (axes_addParameter id parameter name).unasked
  | addParent child parent => exact (axes_addParent child parent).unasked
  | removeParent child parent => exact (axes_removeParent child parent).unasked
  | setValue id v => exact (axes_setValue id v).unasked

end Call

namespace Workspace

variable {P : Prop} {w : Workspace} {c : Call} {allowed : Workspace → Call → Prop}

/-!
# Shapes after any calls
-/

theorem keepsAxes_after (hP : c.asksForPoint w = true -> P) : KeepsAxes P w (w.after c) := by
  cases hreturns : w.returns c with
  | true => exact ((c.gives_perform hP).of_ok (run_of_returns hreturns)).1
  | false =>
      rcases run_of_fails hreturns with ⟨f, hrun⟩
      exact (c.gives_perform hP).of_error hrun

theorem hasPoint_after (hreturns : w.returns c = true) (hasks : c.asksForPoint w = true) :
    (w.after c).HasPoint :=
  ((c.gives_perform (P := True) fun _ => trivial).of_ok (run_of_returns hreturns)).2 hasks

theorem hasAxes_of_reached (h : w.Reached allowed)
    (hP : forall u c, allowed u c -> c.asksForPoint u = true -> P) : w.HasAxes P := by
  induction h with
  | empty settings wide =>
      intro id n hn
      cases hn
  | call c _ hallowed ih => exact (keepsAxes_after (hP _ c hallowed)).axes ih

theorem two_le_of_hasAxes (h : w.HasAxes False) (id : NodeId) (n : Node)
    (hn : w.node? id = some n) : 2 ≤ n.dim.length := by
  have hdim := h id n hn
  have hzero : n.dim.length ≠ 0 := fun hnil => hdim.axes (List.length_eq_zero_iff.mp hnil)
  have hone := hdim.isDim.length
  omega

theorem two_le_after_iff (hdims : w.HasAxes True) (hreturns : w.returns c = true)
    (haxes : forall id n, w.node? id = some n -> 2 ≤ n.dim.length) :
    (forall id n, (w.after c).node? id = some n -> 2 ≤ n.dim.length) ↔
      c.asksForPoint w = false := by
  constructor
  · intro hafter
    cases hasks : c.asksForPoint w with
    | false => rfl
    | true =>
        rcases hasPoint_after hreturns hasks with ⟨id, n, hn, hnil⟩
        have htwo := hafter id n hn
        rw [hnil] at htwo
        cases htwo
  · intro hasks
    have hbefore : w.HasAxes False := by
      intro id n hn
      refine ⟨(hdims id n hn).isDim, ?_⟩
      intro hnil
      have htwo := haxes id n hn
      rw [hnil] at htwo
      cases htwo
    apply two_le_of_hasAxes
    apply (keepsAxes_after _).axes hbefore
    intro htrue
    rw [hasks] at htrue
    cases htrue

/-- After any calls, values have the shapes of their nodes, no axis is empty, and none is left
alone.  Nodes have at least two axes as long as no call asks for one without axes, which it
does by a shape that is read as an empty sequence: every such call that returns builds it. -/
theorem axes_of_reached (w : Workspace) (h : w.Reached fun _ _ => True) :
    (forall id n, w.node? id = some n -> n.value.array.shape = n.dim ∧
      (forall k, k ∈ n.dim -> 1 ≤ k) ∧ (2 ≤ n.dim.length ∨ n.dim = [])) ∧
    (w.Reached (fun u c => c.asksForPoint u = false) ->
      forall id n, w.node? id = some n -> 2 ≤ n.dim.length) ∧
    forall c, w.returns c = true -> (forall id n, w.node? id = some n -> 2 ≤ n.dim.length) ->
      ((forall id n, (w.after c).node? id = some n -> 2 ≤ n.dim.length) ↔
        c.asksForPoint w = false) := by
  have hdims : w.HasAxes True := hasAxes_of_reached h fun _ _ _ _ => trivial
  refine ⟨?_, ?_, ?_⟩
  · intro id n hn
    have hdim := (hdims id n hn).isDim
    refine ⟨fitsValues_of_reached h id n hn, hdim.positive, ?_⟩
    match hcase : n.dim, hdim.length with
    | [], _ => exact Or.inr rfl
    | [k], hone => exact absurd rfl hone
    | k :: l :: rest, _ => exact Or.inl (Nat.le_add_left 2 rest.length)
  · intro hreached
    apply two_le_of_hasAxes
    apply hasAxes_of_reached hreached
    intro u c hallowed hasks
    rw [hallowed] at hasks
    cases hasks
  · intro c hreturns haxes
    exact two_le_after_iff hdims hreturns haxes

/-- A column of two numbers. -/
def column : Workspace :=
  (empty {} true).after (.data (.list [.float 1.0, .float 2.0]))

def swapAxes : ShapeRule where
  sizes?
    | (rows :: columns :: _) :: _ => .ok (some [columns, rows])
    | _ => .error .index

/-- The column as a row, whose shape a rule makes of that of the column. -/
def rowOfColumn : Call :=
  .operation (.text "transpose") [.node 0] (.rule swapAxes) (.tuple []) .none []

theorem axes_of_reached_column : column.returns rowOfColumn = true ∧
    forall id n, (column.after rowOfColumn).node? id = some n -> 2 ≤ n.dim.length := by
  have hreached : column.Reached fun u c => c.asksForPoint u = false :=
    (Reached.empty {} true).call _ rfl
  have hreached' : column.Reached fun _ _ => True := (Reached.empty {} true).call _ trivial
  have hreturns : column.returns rowOfColumn = true := by decide +kernel
  have hasks : rowOfColumn.asksForPoint column = false := by decide +kernel
  have haxes := (axes_of_reached column hreached').2.1 hreached
  exact ⟨hreturns, ((axes_of_reached column hreached').2.2 rowOfColumn hreturns haxes).mpr hasks⟩

/-- The variable that is declared with an empty sequence as its shape has no axes. -/
theorem not_axes_of_reached :
    ¬forall w : Workspace, w.Reached (fun _ _ => True) -> forall id n, w.node? id = some n ->
      2 ≤ n.dim.length ∧ (forall k, k ∈ n.dim -> 1 ≤ k) ∧ n.value.array.shape = n.dim := by
  intro h
  have hreached : ((empty {} true).after (.bounded .none (.tuple []))).Reached fun _ _ => True :=
    (Reached.empty {} true).call _ trivial
  have hdim : (((empty {} true).after (.bounded .none (.tuple []))).node? 0).map Node.dim =
      some [] := by
    decide +kernel
  rcases Option.map_eq_some_iff.mp hdim with ⟨n, hn, hnil⟩
  have htwo := (h _ hreached 0 n hn).1
  rw [hnil] at htwo
  cases htwo

end Workspace
end DensityGraph

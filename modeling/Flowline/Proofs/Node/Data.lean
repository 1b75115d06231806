import Flowline.Node.Data
import Flowline.Proofs.Session.Frame

/-! # Nodes that work on data

They only do what any node does by itself, and never wait. Their outputs stay as they are. -/

namespace Flowline

/-- A result of a node that does not wait, with an output that stays as it is. -/
def NodeResult.Plain (r : NodeResult) : Prop := r.isWaiting = false ∧ r.output.growing = []

namespace NodeResult

theorem growing_orEmpty {o : Output} (h : o.growing = []) : o.orEmpty.growing = [] := by
  unfold Output.orEmpty
  split
  · exact h
  · rfl

theorem plain_ok (v next : Value) : (ok (.fixed v) next).Plain := ⟨rfl, growing_orEmpty rfl⟩

theorem plain_okValue (v : Value) : (okValue v).Plain := plain_ok v .null

theorem plain_okObject (entries : List (String × Value)) : (okObject entries).Plain :=
  plain_okValue _

theorem plain_failure (reason : String) : (failure reason).Plain := ⟨rfl, growing_orEmpty rfl⟩

end NodeResult

namespace Node
open NodeResult Run
variable {R : Session → Session → Prop} [Frame R]

theorem within_storeOutput (n : Node) (v : Value) : Within R (n.storeOutput v) := by
  refine (within_of _).bind fun name => ?_
  split
  · exact within_setNamed name v
  · exact gives_pure trivial

/-! ## Variables -/

theorem within_assign (done : List (Scalar × Value)) (items : List Value) :
    Within R (assign done items) := by
  induction items generalizing done with
  | nil => exact gives_pure trivial
  | cons item rest ih =>
    refine (within_of _).bind fun name => ?_
    split
    · refine (within_of _).bind fun v => ?_
      refine (within_resolve v).bind fun value => ?_
      refine (within_of _).bind fun key => ?_
      exact (within_setVariable key value).bind fun _ => ih _
    · exact ih done

theorem gives_runSetVariable (n : Node) : Gives R Plain n.runSetVariable := by
  refine (within_of _).bind fun v => ?_
  refine (within_of _).bind fun items => ?_
  exact (within_assign [] items).bind fun _ => gives_pure (plain_okObject _)

/-! ## Transformations -/

theorem within_mapItems (expression : Value) (items : List Value) :
    Within R (mapItems expression items) := by
  induction items with
  | nil => exact gives_pure trivial
  | cons item rest ih =>
    refine (within_setVariable _ item).bind fun _ => ?_
    refine (within_resolve expression).bind fun v => ?_
    exact ih.bind fun _ => gives_pure trivial

theorem within_filterItems (condition : Value) (items : List Value) :
    Within R (filterItems condition items) := by
  induction items with
  | nil => exact gives_pure trivial
  | cons item rest ih =>
    refine (within_setVariable _ item).bind fun _ => ?_
    refine (within_check condition).bind fun kept => ?_
    exact ih.bind fun _ => gives_pure trivial

theorem within_reduceItems (expression accumulator : Value) (items : List Value) :
    Within R (reduceItems expression accumulator items) := by
  induction items generalizing accumulator with
  | nil => exact gives_pure trivial
  | cons item rest ih =>
    refine (within_setVariable _ accumulator).bind fun _ => ?_
    refine (within_setVariable _ item).bind fun _ => ?_
    exact (within_resolve expression).bind fun v => ih v

theorem within_transformation {name : String} {step data : Value} {m : Run Value}
    (h : transformation? name step data = some m) : Within R m := by
  unfold transformation? at h
  split at h
  case h_1 =>
    cases h
    exact (within_of _).bind fun v => (within_mapItems v _).bind fun _ => gives_pure trivial
  case h_2 =>
    cases h
    exact (within_of _).bind fun v => (within_filterItems v _).bind fun _ => gives_pure trivial
  case h_3 =>
    cases h
    exact (within_of _).bind fun initial => (within_of _).bind fun v => within_reduceItems v initial _
  case h_4 =>
    cases h
    refine (within_of _).bind fun direction => (within_of _).bind fun key => (within_of _).bind fun descending => ?_
    exact (within_of _).bind fun _ => gives_pure trivial
  case h_6 =>
    cases h
    exact (within_of _).bind fun v => (within_of _).bind fun depth => gives_pure trivial
  case h_10 =>
    cases h
    exact within_of _
  case h_14 => cases h
  all_goals
    cases h
    first
    | exact gives_pure trivial
    | exact (within_of _).bind fun _ => gives_pure trivial
    | exact (within_of _).bind fun _ => (within_of _).bind fun _ => gives_pure trivial

theorem within_applyStep (n : Node) (data step : Value) : Within R (n.applyStep data step) := by
  refine (within_of _).bind fun type => ?_
  refine (within_of _).bind fun key => ?_
  dsimp only
  split
  · refine Gives.bind (gives_pure (P := fun known? => ∀ m, known? = some m → Within R m)
      fun m hm => within_transformation hm) fun known? h => ?_
    cases known? with
    | none => exact (within_of _).bind fun _ => (within_note _ _ _).bind fun _ => gives_pure trivial
    | some m => exact h m rfl
  · have hunknown : Within R (do
        let name ← of type.written
        note "warning" s!"Unknown transformation type: {name}" [("node_id", .str n.id)]
        return data) :=
      (within_of _).bind fun name => (within_note _ _ _).bind fun _ => gives_pure trivial
    exact hunknown

theorem gives_runTransform (n : Node) : Gives R Plain n.runTransform := by
  refine (within_of _).bind fun input => ?_
  refine (within_resolve input).bind fun data => ?_
  refine (within_of _).bind fun v => ?_
  refine (within_of _).bind fun steps => ?_
  refine (within_foldlM (within_applyStep n) data steps).bind fun result => ?_
  exact (within_storeOutput n result).bind fun _ => gives_pure (plain_okObject _)

/-! ## Filters -/

theorem within_checkAll (conditions : List Value) : Within R (checkAll conditions) := by
  induction conditions with
  | nil => exact gives_pure trivial
  | cons condition rest ih =>
    exact (within_check condition).bind fun _ => ih.bind fun _ => gives_pure trivial

theorem within_matchingItems (conditions : Value) (needsAll : Bool) (items : List Value) :
    Within R (matchingItems conditions needsAll items) := by
  induction items with
  | nil => exact gives_pure trivial
  | cons item rest ih =>
    refine (within_setVariable _ item).bind fun _ => ?_
    refine (within_of _).bind fun list => ?_
    refine (within_checkAll list).bind fun held => ?_
    exact ih.bind fun _ => gives_pure trivial

theorem gives_runFilter (n : Node) : Gives R Plain n.runFilter := by
  refine (within_of _).bind fun v => ?_
  refine (within_resolve v).bind fun input => ?_
  refine (within_of _).bind fun conditions => ?_
  refine (within_of _).bind fun matchType => ?_
  split
  · exact gives_pure (plain_failure _)
  · refine (within_matchingItems _ _ _).bind fun kept => ?_
    exact (within_storeOutput n _).bind fun _ => gives_pure (plain_okObject _)

/-! ## Aggregates -/

theorem gives_runAggregate (n : Node) : Gives R Plain n.runAggregate := by
  refine (within_of _).bind fun v => ?_
  refine (within_resolve v).bind fun input => ?_
  split
  · exact gives_pure (plain_failure _)
  · refine (within_of _).bind fun list => ?_
    refine (within_of _).bind fun operations => ?_
    refine (within_of _).bind fun results => ?_
    exact (within_storeOutput n _).bind fun _ => gives_pure (plain_okValue _)

end Node

end Flowline

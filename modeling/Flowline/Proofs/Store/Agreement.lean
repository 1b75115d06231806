import Flowline.Proofs.Execution.Reload
import Flowline.Proofs.Store.Rows
import Flowline.Proofs.Table

/-! # Stores that agree

A store in memory and one in a database that took the same changes gave the same answers, and give the same
answers to every question (`agree_after`). -/

namespace Flowline

/-! ## Changes -/

namespace Store

inductive Change
  | saveWorkflow (w : Workflow)
  | deleteWorkflow (id : String)
  | saveExecution (e : Execution)
  | deleteExecution (id : String)
  | cleanUp (now : Moment) (days : Int)

/-- What a store says to a change that it took. -/
inductive Reply
  | saved
  | deleted (known : Bool)
  | cleanedUp (count : Nat)
deriving DecidableEq, Repr

namespace Change

def apply (s : Store) : Change → Except Fault (Reply × Store)
  | saveWorkflow w => do return (.saved, ← s.saveWorkflow w)
  | deleteWorkflow id => do
    let (known, s) ← s.deleteWorkflow id
    return (.deleted known, s)
  | saveExecution e => do return (.saved, ← s.saveExecution e)
  | deleteExecution id => do
    let (known, s) ← s.deleteExecution id
    return (.deleted known, s)
  | cleanUp now days => do
    let (count, s) ← s.cleanUp now days
    return (.cleanedUp count, s)

/-- A change that both stores can take: what is saved fits a database, and days are counted from a moment in
universal time. -/
def IsRegular : Change → Prop
  | saveWorkflow w => w.Storable
  | saveExecution e => e.Storable
  | cleanUp now _ => now.IsUniversal
  | _ => True

end Change

/-- What a store says to each of some changes, and the store in the end. A change that fails leaves the store as it
is. -/
def run (s : Store) : List Change → List (Except Fault Reply) × Store
  | [] => ([], s)
  | c :: rest =>
    match c.apply s with
    | .ok (reply, s) => ((s.run rest).1.cons (.ok reply), (s.run rest).2)
    | .error fault => ((s.run rest).1.cons (.error fault), (s.run rest).2)

end Store

/-- A moment some days before one in universal time is in universal time. -/
theorem isUniversal_daysBefore {now cutoff : Moment} {days : Int} (hnow : now.IsUniversal)
    (h : now.daysBefore days = .ok cutoff) : cutoff.IsUniversal := by
  unfold Moment.daysBefore at h
  split at h
  · split at h
    · next hadd =>
      cases h
      exact hnow.addMicros hadd
    · cases h
  · cases h

/-! ## A database that mirrors what is in memory -/

/-- A database whose rows are those of what is in memory, in the same order. -/
structure Mirrors (m : Memory) (d : Database) : Prop where
  isOpen : d.isOpen = true
  workflows : d.workflows = m.workflows.map fun p => (p.1, WorkflowRow.of p.2)
  executions : d.executions = m.executions.map fun p => (p.1, ExecutionRow.of p.2)
  keyed : ∀ p ∈ m.workflows, p.1 = p.2.id
  workflow : ∀ p ∈ m.workflows, p.2.Storable
  execution : ∀ p ∈ m.executions, p.2.Storable
  nodup : m.executions.keys.Nodup

namespace Mirrors

theorem start : Mirrors .empty .opened where
  isOpen := rfl
  workflows := rfl
  executions := rfl
  keyed := fun _ hp => nomatch hp
  workflow := fun _ hp => nomatch hp
  execution := fun _ hp => nomatch hp
  nodup := .nil

variable {m : Memory} {d : Database} (h : Mirrors m d)
include h

theorem check : d.check = .ok () := if_pos h.isOpen

theorem saveWorkflow {w : Workflow} (hw : w.Storable) :
    ∃ d', d.saveWorkflow w = .ok d' ∧ Mirrors (m.saveWorkflow w) d' := by
  refine ⟨{ d with workflows := d.workflows.put w.id (.of w) }, ?_, ?_⟩
  · rw [Database.saveWorkflow, h.check, Database.checkWorkflow_eq_ok hw]
    rfl
  · refine { h with workflows := ?_, keyed := ?_, workflow := ?_ }
    · rw [h.workflows, Table.put_map]
      rfl
    · intro p hp
      obtain rfl | hp := Table.eq_or_mem_of_mem_put hp
      · rfl
      · exact h.keyed p hp
    · intro p hp
      obtain rfl | hp := Table.eq_or_mem_of_mem_put hp
      · exact hw
      · exact h.workflow p hp

theorem deleteWorkflow (id : String) :
    ∃ d', d.deleteWorkflow id = .ok ((m.deleteWorkflow id).1, d') ∧ Mirrors (m.deleteWorkflow id).2 d' := by
  refine ⟨{ d with workflows := d.workflows.erase id }, ?_, ?_⟩
  · rw [Database.deleteWorkflow, h.check, h.workflows, Table.contains_map]
    rfl
  · refine { h with workflows := ?_, keyed := ?_, workflow := ?_ }
    · rw [h.workflows, Table.erase_map]
      rfl
    · exact fun p hp => h.keyed p (List.mem_of_mem_filter hp)
    · exact fun p hp => h.workflow p (List.mem_of_mem_filter hp)

theorem saveExecution {e : Execution} (he : e.Storable) :
    ∃ d', d.saveExecution e = .ok d' ∧ Mirrors (m.saveExecution e) d' := by
  refine ⟨{ d with executions := d.executions.put e.id (.of e) }, ?_, ?_⟩
  · rw [Database.saveExecution, h.check, Database.checkExecution_eq_ok he]
    rfl
  · refine { h with executions := ?_, execution := ?_, nodup := Table.nodup_put e.id e h.nodup }
    · rw [h.executions, Table.put_map]
      rfl
    · intro p hp
      obtain rfl | hp := Table.eq_or_mem_of_mem_put hp
      · exact he
      · exact h.execution p hp

theorem deleteExecution (id : String) :
    ∃ d', d.deleteExecution id = .ok ((m.deleteExecution id).1, d') ∧ Mirrors (m.deleteExecution id).2 d' := by
  refine ⟨{ d with executions := d.executions.erase id }, ?_, ?_⟩
  · rw [Database.deleteExecution, h.check, h.executions, Table.contains_map]
    rfl
  · refine { h with executions := ?_, execution := ?_, nodup := Table.nodup_erase id h.nodup }
    · rw [h.executions, Table.erase_map]
      rfl
    · exact fun p hp => h.execution p (List.mem_of_mem_filter hp)

omit h in
/-- A row is old where its execution is: in universal time the clock shows the time. -/
theorem isOld_of {e : Execution} {cutoff : Moment} (he : e.Storable) (hcutoff : cutoff.IsUniversal) :
    Database.isOld cutoff (.of e) = Memory.isOld cutoff e := by
  rw [Database.isOld, Memory.isOld, hcutoff.micros_eq, he.reloaded, he.startedAt.micros_eq]
  rfl

theorem deleteOld {cutoff : Moment} (hcutoff : cutoff.IsUniversal) :
    ∃ d', d.deleteOld cutoff = .ok ((m.deleteOld cutoff).1, d') ∧ Mirrors (m.deleteOld cutoff).2 d' := by
  have hold : ∀ p ∈ m.executions, Database.isOld cutoff (.of p.2) = Memory.isOld cutoff p.2 :=
    fun p hp => isOld_of (h.execution p hp) hcutoff
  refine ⟨{ d with executions := d.executions.filter fun p => !Database.isOld cutoff p.2 }, ?_, ?_⟩
  · have hcount : d.executions.values.filter (Database.isOld cutoff) =
        (m.executions.values.filter (Memory.isOld cutoff)).map ExecutionRow.of := by
      rw [h.executions, Table.values_map, List.filter_map]
      refine congrArg _ (List.filter_congr fun e he => ?_)
      obtain ⟨p, hp, rfl⟩ := List.mem_map.1 he
      exact hold p hp
    rw [Database.deleteOld, h.check, hcount, List.length_map]
    rfl
  · refine { h with executions := ?_, execution := ?_, nodup := ?_ }
    · rw [h.executions, List.filter_map]
      refine congrArg _ (List.filter_congr fun p hp => ?_)
      exact congrArg _ (hold p hp)
    · exact fun p hp => h.execution p (List.mem_of_mem_filter hp)
    · exact h.nodup.sublist (List.filter_sublist.map _)

end Mirrors

namespace Store

/-- A step: both stores say the same to a change, and the database still mirrors what is in memory. -/
theorem mirrors_apply {m : Memory} {d : Database} (h : Mirrors m d) {c : Change} (hc : c.IsRegular) :
    (∃ fault, c.apply (memory m) = .error fault ∧ c.apply (database d) = .error fault) ∨
    ∃ reply m' d', c.apply (memory m) = .ok (reply, memory m') ∧ c.apply (database d) = .ok (reply, database d') ∧
      Mirrors m' d' := by
  cases c with
  | saveWorkflow w =>
    obtain ⟨d', hd, h'⟩ := h.saveWorkflow hc
    refine .inr ⟨.saved, _, d', rfl, ?_, h'⟩
    rw [Change.apply, Store.saveWorkflow, hd]
    rfl
  | deleteWorkflow id =>
    obtain ⟨d', hd, h'⟩ := h.deleteWorkflow id
    refine .inr ⟨.deleted (m.deleteWorkflow id).1, _, d', rfl, ?_, h'⟩
    rw [Change.apply, Store.deleteWorkflow, hd]
    rfl
  | saveExecution e =>
    obtain ⟨d', hd, h'⟩ := h.saveExecution hc
    refine .inr ⟨.saved, _, d', rfl, ?_, h'⟩
    rw [Change.apply, Store.saveExecution, hd]
    rfl
  | deleteExecution id =>
    obtain ⟨d', hd, h'⟩ := h.deleteExecution id
    refine .inr ⟨.deleted (m.deleteExecution id).1, _, d', rfl, ?_, h'⟩
    rw [Change.apply, Store.deleteExecution, hd]
    rfl
  | cleanUp now days =>
    cases hdays : now.daysBefore days with
    | error fault =>
      refine .inl ⟨fault, ?_, ?_⟩
      · rw [Change.apply, cleanUp, hdays]
        rfl
      · rw [Change.apply, cleanUp, hdays]
        rfl
    | ok cutoff =>
      obtain ⟨d', hd, h'⟩ := h.deleteOld (isUniversal_daysBefore hc hdays)
      refine .inr ⟨.cleanedUp (m.deleteOld cutoff).1, _, d', ?_, ?_, h'⟩
      · rw [Change.apply, cleanUp, hdays]
        rfl
      · rw [Change.apply, cleanUp, hdays]
        simp only [ok_bind, hd]
        rfl

theorem mirrors_run {changes : List Change} (hc : ∀ c ∈ changes, c.IsRegular) {m : Memory} {d : Database}
    (h : Mirrors m d) : ∃ replies m' d', (memory m).run changes = (replies, memory m') ∧
      (database d).run changes = (replies, database d') ∧ Mirrors m' d' := by
  induction changes generalizing m d with
  | nil => exact ⟨[], m, d, rfl, rfl, h⟩
  | cons c rest ih =>
    obtain ⟨hfirst, hrest⟩ := List.forall_mem_cons.1 hc
    obtain ⟨fault, hm, hd⟩ | ⟨reply, m₁, d₁, hm, hd, h₁⟩ := mirrors_apply h hfirst
    · obtain ⟨replies, m', d', hm', hd', h'⟩ := ih hrest h
      exact ⟨.error fault :: replies, m', d', by simp [run, hm, hm'], by simp [run, hd, hd'], h'⟩
    · obtain ⟨replies, m', d', hm', hd', h'⟩ := ih hrest h₁
      exact ⟨.ok reply :: replies, m', d', by simp [run, hm, hm'], by simp [run, hd, hd'], h'⟩

end Store

/-! ## Questions -/

/-- A page that starts at the front and ends no earlier than a list of some size, and whose limit a database can
count up to. -/
def Page.Covers (p : Page) (size : Nat) : Prop := p.offset = 0 ∧ size ≤ p.limit ∧ p.limit < 2 ^ 63

/-- A page that is counted from the front, up to where a database can count. -/
def Page.IsPlain (p : Page) : Prop := (0 ≤ p.offset ∧ p.offset < 2 ^ 63) ∧ 0 ≤ p.limit ∧ p.limit < 2 ^ 63

namespace Page

variable {p : Page}

theorem Covers.isPlain {size : Nat} (hp : p.Covers size) : p.IsPlain := by
  obtain ⟨hoffset, hsize, hlimit⟩ := hp
  exact ⟨by omega, by omega, hlimit⟩

theorem IsPlain.check (hp : p.IsPlain) : Database.checkPage p = .ok () := by
  obtain ⟨⟨_, hoffset⟩, _, hlimit⟩ := hp
  have hfirst : Database.checkColumn (.int p.offset) = .ok () :=
    Database.checkColumn_eq_ok (v := .int p.offset) ⟨by omega, hoffset⟩
  have hsecond : Database.checkColumn (.int p.limit) = .ok () :=
    Database.checkColumn_eq_ok (v := .int p.limit) ⟨by omega, hlimit⟩
  rw [Database.checkPage, hfirst, hsecond]
  rfl

/-- Lists and rows are cut in the same way where nothing is counted from the end. -/
theorem IsPlain.ofRows_eq {α : Type} (hp : p.IsPlain) (items : List α) : p.ofRows items = p.ofList items := by
  obtain ⟨⟨hoffset, -⟩, hlimit, -⟩ := hp
  have hlast : (p.offset + p.limit).toNat = p.offset.toNat + p.limit.toNat := Int.toNat_add hoffset hlimit
  rw [ofRows, ofList, if_neg (by omega), placeIn, placeIn, if_neg (by omega), if_neg (by omega), hlast, List.drop_take,
    Nat.add_sub_cancel_left]

theorem Covers.ofRows {α : Type} {size : Nat} (hp : p.Covers size) {rows : List α} (hrows : rows.length ≤ size) :
    p.ofRows rows = rows := by
  obtain ⟨hoffset, hsize, -⟩ := hp
  rw [Page.ofRows, hoffset, if_neg (by omega), Int.toNat_zero, List.drop_zero, List.take_of_length_le (by omega)]

theorem Covers.ofList {α : Type} {size : Nat} (hp : p.Covers size) {items : List α} (hitems : items.length ≤ size) :
    p.ofList items = items := by
  rw [← hp.isPlain.ofRows_eq, hp.ofRows hitems]

theorem map_ofList {α β : Type} (p : Page) (f : α → β) (items : List α) :
    p.ofList (items.map f) = (p.ofList items).map f := by
  rw [ofList, ofList, List.length_map, ← List.map_take, ← List.map_drop]

end Page

namespace WorkflowStatus

theorem beq_text (a b : WorkflowStatus) : (a.text == b.text) = (a == b) := by
  cases a <;> cases b <;> rfl

end WorkflowStatus

namespace ExecutionStatus

theorem beq_text (a b : ExecutionStatus) : (a.text == b.text) = (a == b) := by
  cases a <;> cases b <;> rfl

end ExecutionStatus

/-- What is sorted by how its images compare. -/
theorem mergeSort_map {α β : Type} (f : α → β) (before : β → β → Bool) (items : List α) :
    (items.map f).mergeSort before = (items.mergeSort fun a b => before (f a) (f b)).map f :=
  (List.map_mergeSort (r := fun a b => before (f a) (f b)) fun _ _ _ _ => rfl).symm

/-- An execution that is over and started before a moment. -/
def Execution.isOver (cutoff : Moment) (e : Execution) : Bool :=
  e.status.isTerminal && decide (e.startedAt.micros < cutoff.micros)

/-- A store that cleans up takes out what is over and started before the moment some days ago, and nothing else. -/
def Store.CleansUp (s : Store) : Prop :=
  ∀ (now : Moment) (days : Int) (cutoff : Moment), now.IsUniversal → now.daysBefore days = .ok cutoff →
    ∃ count s', s.cleanUp now days = .ok (count, s') ∧
      (∀ id, s'.workflow? id = s.workflow? id) ∧
      ∀ id, s'.execution? id = (s.execution? id).map (·.filter fun e => !e.isOver cutoff)

namespace Mirrors

variable {m : Memory} {d : Database} (h : Mirrors m d)
include h

theorem read_of {p : String × Workflow} (hp : p ∈ m.workflows) :
    WorkflowRow.read p.1 (WorkflowRow.of p.2) = .ok p.2.tidied := by
  rw [h.keyed p hp, WorkflowRow.read_of (h.workflow p hp).settled]

theorem workflow? (id : String) : d.workflow? id = .ok ((m.workflow? id).map Workflow.tidied) := by
  rw [Database.workflow?, h.check, h.workflows, Table.get?_map, Memory.workflow?]
  cases hget : m.workflows.get? id with
  | none => rfl
  | some w =>
    have hread := h.read_of (Table.mem_of_get? hget)
    simp only [Option.map_some, hread, ok_bind]
    rfl

theorem execution? (id : String) :
    d.execution? id = .ok ((m.executions.get? id).map fun e => (ExecutionRow.of e).read) := by
  rw [Database.execution?, h.check, h.executions, Table.get?_map, Option.map_map]
  rfl

theorem toValue_execution? (id : String) :
    (d.execution? id).map (·.map Execution.toValue) = .ok ((m.execution? id).map Execution.toValue) := by
  rw [h.execution?, Memory.execution?]
  cases hget : m.executions.get? id with
  | none => rfl
  | some e =>
    have he := h.execution _ (Table.mem_of_get? hget)
    exact congrArg (fun v => Except.ok (some v)) ((ExecutionRow.toValue_read_of he).trans he.toValue_reloaded.symm)

theorem listWorkflows (status : Option WorkflowStatus) {page : Page} (hpage : page.Covers m.workflows.length) :
    ∃ found, d.listWorkflows (status.map WorkflowStatus.text) page = .ok found ∧
      (found.map Workflow.toValue).Perm
        ((m.listWorkflows (status.map WorkflowStatus.text) page).map Workflow.toValue) := by
  let kept := m.workflows.filter fun p => status.all (p.2.status == ·)
  let sorted := kept.mergeSort fun a b => decide (a.1 ≤ b.1)
  have hperm : sorted.Perm kept := List.mergeSort_perm ..
  have hwanted : (status.map WorkflowStatus.text).mapM (fun text => WorkflowStatus.ofValue (.str text)) =
      .ok status := by
    cases status with
    | none => rfl
    | some st => simp [WorkflowStatus.ofValue_text]
  have hkept : d.workflows.filter (fun p => status.all (p.2.status == ·)) =
      kept.map fun p => (p.1, WorkflowRow.of p.2) := by
    rw [h.workflows, List.filter_map]
    rfl
  have hsorted : (kept.map fun p => (p.1, WorkflowRow.of p.2)).mergeSort (fun a b => decide (a.1 ≤ b.1)) =
      sorted.map fun p => (p.1, WorkflowRow.of p.2) := mergeSort_map ..
  have hsize : (sorted.map fun p => (p.1, WorkflowRow.of p.2)).length ≤ m.workflows.length := by
    rw [List.length_map, hperm.length_eq]
    exact List.length_filter_le ..
  have hread : (sorted.map fun p => (p.1, WorkflowRow.of p.2)).mapM (fun p => WorkflowRow.read p.1 p.2) =
      .ok (sorted.map fun p => p.2.tidied) :=
    mapM_eq_ok fun p hp => h.read_of (List.mem_of_mem_filter (hperm.mem_iff.1 hp))
  have hmemory : m.listWorkflows (status.map WorkflowStatus.text) page = kept.map (·.2) := by
    have hsame : m.workflows.values.filter (fun w => status.all (w.status == ·)) = kept.map (·.2) := by
      rw [Table.values, List.filter_map]
      rfl
    rw [Memory.listWorkflows, ← hsame, hpage.ofList]
    · refine List.filter_congr fun w _ => ?_
      cases status with
      | none => rfl
      | some st => exact WorkflowStatus.beq_text ..
    · exact (List.length_filter_le ..).trans_eq (List.length_map ..)
  refine ⟨sorted.map fun p => p.2.tidied, ?_, ?_⟩
  · simp only [Database.listWorkflows, h.check, hwanted, hpage.isPlain.check, ok_bind, hkept, hsorted,
      hpage.ofRows hsize, hread]
  · rw [hmemory, List.map_map, List.map_map]
    simp only [Function.comp_def, Workflow.toValue_tidied]
    exact hperm.map _

/-- The rows of some executions are those of the ones in memory. -/
theorem values_filter {wanted : ExecutionRow → Bool} {kept : Execution → Bool} (hkept : ∀ e, wanted (.of e) = kept e) :
    d.executions.values.filter wanted = (m.executions.values.filter kept).map .of := by
  rw [h.executions, Table.values_map, List.filter_map]
  exact congrArg _ (List.filter_congr fun e _ => hkept e)

theorem storable {e : Execution} (he : e ∈ m.executions.values) : e.Storable := by
  obtain ⟨p, hp, rfl⟩ := List.mem_map.1 he
  exact h.execution p hp

/-- Rows and records of the same executions look the same. -/
theorem toValue_read (es : List Execution) (hes : ∀ e ∈ es, e ∈ m.executions.values) :
    (es.map fun e => (ExecutionRow.of e).read.toValue) = es.map fun e => e.reloaded.toValue := by
  refine List.map_congr_left fun e he => ?_
  rw [ExecutionRow.toValue_read_of (h.storable (hes e he)), (h.storable (hes e he)).toValue_reloaded]

theorem listByStatus (status : ExecutionStatus) {page : Page} (hpage : page.Covers m.executions.length) :
    ∃ found, d.listByStatus status.text page = .ok found ∧
      (found.map Execution.toValue).Perm ((m.listByStatus status.text page).map Execution.toValue) := by
  let kept := m.executions.values.filter (·.status == status)
  let sorted := kept.mergeSort fun a b => Database.isNotLater (.of a) (.of b)
  have hperm : sorted.Perm kept := List.mergeSort_perm ..
  have hsize : kept.length ≤ m.executions.length := (List.length_filter_le ..).trans_eq (List.length_map ..)
  have hsorted : (kept.map ExecutionRow.of).mergeSort Database.isNotLater = sorted.map .of :=
    mergeSort_map ..
  have hrows : d.executions.values.filter (·.status == status) = kept.map .of := h.values_filter fun _ => rfl
  have hmemory : m.listByStatus status.text page = kept.map Execution.reloaded := by
    have hsame : (m.executions.values.map Execution.reloaded).filter (·.status.text == status.text) =
        kept.map Execution.reloaded := by
      rw [List.filter_map]
      exact congrArg _ (List.filter_congr fun e _ => ExecutionStatus.beq_text ..)
    rw [Memory.listByStatus, hsame, hpage.ofList (by rwa [List.length_map])]
  refine ⟨sorted.map fun e => (ExecutionRow.of e).read, ?_, ?_⟩
  · have hpageRows : page.ofRows (sorted.map ExecutionRow.of) = sorted.map .of :=
      hpage.ofRows (by rwa [List.length_map, hperm.length_eq])
    simp only [Database.listByStatus, h.check, Database.statusOf, ExecutionStatus.ofValue_text, hpage.isPlain.check,
      ok_bind, Database.search, hrows, hsorted, hpageRows, List.map_map]
    rfl
  · have hsame := h.toValue_read sorted fun e he => List.mem_of_mem_filter (hperm.mem_iff.1 he)
    rw [hmemory, List.map_map, List.map_map]
    exact (List.Perm.of_eq hsame).trans (hperm.map _)

theorem listByWorkflow (id : String) (status : Option ExecutionStatus) {page : Page} (hpage : page.IsPlain) :
    (d.listByWorkflow id (status.map ExecutionStatus.text) page).map (·.map Execution.toValue) =
      .ok ((m.listByWorkflow id (status.map ExecutionStatus.text) page).map Execution.toValue) := by
  let kept := m.executions.values.filter fun e => e.workflowId == id && status.all (e.status == ·)
  let sorted := kept.mergeSort fun a b => Database.isNotLater (.of b) (.of a)
  have hmem : ∀ e ∈ sorted, e ∈ m.executions.values := fun e he => List.mem_of_mem_filter (List.mem_mergeSort.1 he)
  have hwanted : (status.map ExecutionStatus.text).mapM Database.statusOf = .ok status := by
    cases status with
    | none => rfl
    | some st => simp [Database.statusOf, ExecutionStatus.ofValue_text]
  have hrows : d.executions.values.filter (fun row => row.content.workflowId == id && status.all (row.status == ·)) =
      kept.map .of := h.values_filter fun _ => rfl
  have hsorted : (kept.map ExecutionRow.of).mergeSort (fun a b => Database.isNotLater b a) = sorted.map .of :=
    mergeSort_map ..
  have hmemory : m.listByWorkflow id (status.map ExecutionStatus.text) page =
      page.ofList (sorted.map Execution.reloaded) := by
    have horder : (kept.map Execution.reloaded).mergeSort Memory.isNotEarlier = sorted.map Execution.reloaded := by
      refine (List.map_mergeSort fun a ha b hb => ?_).symm
      have ha := h.storable (List.mem_of_mem_filter ha)
      have hb := h.storable (List.mem_of_mem_filter hb)
      rw [Memory.isNotEarlier, ha.reloaded, hb.reloaded, ha.startedAt.micros_eq, hb.startedAt.micros_eq]
      rfl
    rw [Memory.listByWorkflow, ← horder]
    refine congrArg (fun es : List Execution => page.ofList (es.mergeSort Memory.isNotEarlier)) ?_
    rw [List.filter_map]
    refine congrArg _ (List.filter_congr fun e _ => ?_)
    cases status with
    | none => rfl
    | some st => exact congrArg _ (ExecutionStatus.beq_text ..)
  have hcut : (page.ofList sorted).Subset sorted := fun e he => List.mem_of_mem_take (List.mem_of_mem_drop he)
  simp only [Database.listByWorkflow, h.check, hwanted, hpage.check, ok_bind, Database.search, hrows, hsorted,
    hpage.ofRows_eq, Page.map_ofList, hmemory, List.map_map]
  refine congrArg Except.ok (List.map_map.trans ?_)
  exact h.toValue_read _ fun e he => hmem e (hcut he)

end Mirrors

namespace Store

/-- What is left under an id after what is old was taken out. -/
theorem get?_deleteOld {m : Memory} (hnodup : m.executions.keys.Nodup) (cutoff : Moment) (id : String) :
    (m.deleteOld cutoff).2.executions.get? id = (m.executions.get? id).filter fun e => !Memory.isOld cutoff e :=
  Table.get?_filter hnodup (fun e => !Memory.isOld cutoff e) id

theorem cleansUp_memory {m : Memory} (hnodup : m.executions.keys.Nodup) : (memory m).CleansUp := by
  intro now days cutoff _ hdays
  refine ⟨(m.deleteOld cutoff).1, .memory (m.deleteOld cutoff).2, ?_, fun _ => rfl, fun id => ?_⟩
  · rw [cleanUp, hdays]
    rfl
  · refine congrArg Except.ok ?_
    rw [Memory.execution?, Memory.execution?, get?_deleteOld hnodup]
    exact (Option.filter_map (p := fun e => !Execution.isOver cutoff e) (f := Execution.reloaded)).symm

theorem cleansUp_database {m : Memory} {d : Database} (h : Mirrors m d) : (database d).CleansUp := by
  intro now days cutoff hnow hdays
  obtain ⟨d', hd, h'⟩ := h.deleteOld (isUniversal_daysBefore hnow hdays)
  refine ⟨(m.deleteOld cutoff).1, .database d', ?_, fun id => ?_, fun id => ?_⟩
  · rw [cleanUp, hdays]
    simp only [ok_bind, hd]
    rfl
  · exact (h'.workflow? id).trans (h.workflow? id).symm
  · have hbefore : (database d).execution? id = _ := h.execution? id
    have hafter : (database d').execution? id = _ := h'.execution? id
    rw [hbefore, hafter, get?_deleteOld h.nodup]
    cases hget : m.executions.get? id with
    | none => rfl
    | some e =>
      have he := h.execution _ (Table.mem_of_get? hget)
      have hover : (ExecutionRow.of e).read.isOver cutoff = Memory.isOld cutoff e := by
        rw [Memory.isOld, he.reloaded, Execution.isOver, ExecutionRow.read, ExecutionRow.of,
          he.startedAt.withOffset_written]
      simp only [Option.map_some, Except.map, Option.filter_some, hover]
      split <;> rfl

/-- The two stores give the same records, in the same order where it is that of the times at which executions
started, and clean up in the same way. -/
structure Agree (m : Memory) (d : Database) : Prop where
  workflow : ∀ id,
    ((database d).workflow? id).map (·.map Workflow.toValue) = .ok ((m.workflow? id).map Workflow.toValue)
  execution : ∀ id,
    ((database d).execution? id).map (·.map Execution.toValue) = .ok ((m.execution? id).map Execution.toValue)
  workflows : ∀ (status : Option WorkflowStatus) (page : Page), page.Covers m.workflows.length →
    ∃ found, (database d).listWorkflows (status.map WorkflowStatus.text) page = .ok found ∧
      (found.map Workflow.toValue).Perm
        ((m.listWorkflows (status.map WorkflowStatus.text) page).map Workflow.toValue)
  ofStatus : ∀ (status : ExecutionStatus) (page : Page), page.Covers m.executions.length →
    ∃ found, (database d).listByStatus status.text page = .ok found ∧
      (found.map Execution.toValue).Perm ((m.listByStatus status.text page).map Execution.toValue)
  ofWorkflow : ∀ (id : String) (status : Option ExecutionStatus) (page : Page), page.IsPlain →
    ((database d).listByWorkflow id (status.map ExecutionStatus.text) page).map (·.map Execution.toValue) =
      .ok ((m.listByWorkflow id (status.map ExecutionStatus.text) page).map Execution.toValue)
  memory : (Store.memory m).CleansUp
  database : (Store.database d).CleansUp

theorem agree_of_mirrors {m : Memory} {d : Database} (h : Mirrors m d) : Agree m d where
  workflow id := by
    refine (congrArg (Except.map _) (h.workflow? id)).trans ?_
    rw [Except.map, Option.map_map]
    exact congrArg (fun f => Except.ok ((m.workflow? id).map f)) (funext Workflow.toValue_tidied)
  execution := h.toValue_execution?
  workflows status _ hpage := h.listWorkflows status hpage
  ofStatus status _ hpage := h.listByStatus status hpage
  ofWorkflow id status _ hpage := h.listByWorkflow id status hpage
  memory := cleansUp_memory h.nodup
  database := cleansUp_database h

/-- Two stores that were empty and took the same changes said the same to each of them, and agree. -/
theorem agree_after (changes : List Change) (h : ∀ c ∈ changes, c.IsRegular) :
    ∃ replies m d, (Store.memory .empty).run changes = (replies, .memory m) ∧
      (Store.database .opened).run changes = (replies, .database d) ∧ Agree m d := by
  obtain ⟨replies, m, d, hm, hd, hmirrors⟩ := mirrors_run h .start
  exact ⟨replies, m, d, hm, hd, agree_of_mirrors hmirrors⟩

/-! ## A plan and an execution -/

def plan : Workflow where
  id := "plan"
  uuid := "plan"
  name := .str "Plan"
  description := .null
  status := .draft
  triggers := .list []
  nodes := []
  connections := []
  vars := .map [(.str "limit", .int 5)]
  settings := Workflow.standardSettings
  version := .int 2

/-- An execution that was over as soon as it started. -/
def brief (id : String) (hour : Nat) : Execution :=
  { Execution.start id ⟨⟨2024, 6, 15⟩, hour, 0, 0, 0, some 0⟩ with workflowId := "plan", status := .completed }

theorem settled_plan : plan.Settled where
  id_ne := by decide
  uuid_ne := by decide
  triggers := rfl
  configs := nofun
  conditions := nofun
  vars := rfl
  settings := rfl

theorem storable_plan : plan.Storable where
  settled := settled_plan
  name := ⟨_, rfl⟩
  version := ⟨by decide, by decide⟩
  description := trivial
  data := ⟨rfl, by decide +kernel⟩

theorem storable_brief (id : String) (hour : Nat) (h : (brief id hour).toValue.isWritable = true) :
    (brief id hour).Storable where
  startedAt := rfl
  completedAt := nofun
  trigger := ⟨_, rfl, by decide⟩
  elapsed := show -(2 ^ 63) ≤ (0 : Int) ∧ (0 : Int) < 2 ^ 63 by decide
  data := ⟨rfl, h⟩

/-- A plan is saved twice, and the first of two executions is cleaned up. -/
def busyDay : List Change := [
  .saveWorkflow plan,
  .saveExecution (brief "first" 8),
  .saveExecution (brief "second" 10),
  .cleanUp ⟨⟨2024, 6, 16⟩, 9, 0, 0, 0, some 0⟩ 1,
  .saveWorkflow { plan with status := .active },
  .deleteWorkflow "other"]

theorem agree_after_busyDay : (∀ c ∈ busyDay, c.IsRegular) ∧
    ∃ m d, ((Store.memory .empty).run busyDay) =
        ([.ok .saved, .ok .saved, .ok .saved, .ok (.cleanedUp 1), .ok .saved, .ok (.deleted false)], .memory m) ∧
      (((Store.database .opened).run busyDay).2 = .database d) ∧ Agree m d := by
  have hactive : ({ plan with status := .active } : Workflow).Storable :=
    { storable_plan with settled := { settled_plan with }, data := ⟨rfl, by decide +kernel⟩ }
  have hfirst : (brief "first" 8).toValue.isWritable = true := by decide +kernel
  have hsecond : (brief "second" 10).toValue.isWritable = true := by decide +kernel
  have hregular : ∀ c ∈ busyDay, c.IsRegular := by
    simp only [busyDay, List.forall_mem_cons]
    exact ⟨storable_plan, storable_brief _ _ hfirst, storable_brief _ _ hsecond, rfl, hactive, trivial, List.forall_mem_nil _⟩
  obtain ⟨replies, m, d, hm, hd, hagree⟩ := agree_after busyDay hregular
  refine ⟨hregular, m, d, ?_, by rw [hd], hagree⟩
  have hreplies : ((Store.memory .empty).run busyDay).1 =
      [.ok .saved, .ok .saved, .ok .saved, .ok (.cleanedUp 1), .ok .saved, .ok (.deleted false)] := by
    rfl
  rw [hm] at hreplies ⊢
  rw [← hreplies]

/-! ## Where the stores differ -/

/-- A version beyond 64 bits. -/
def distant : Workflow := { plan with version := .int (2 ^ 63) }

/-- A description with parts. -/
def detailed : Workflow := { plan with description := .map [(.str "summary", .str "Plan")] }

/-- A whole number with too many digits. -/
def vast : Workflow := { plan with vars := .map [(.str "limit", .int (tenTo Value.maxNumeralSize))] }

/-- A moment at which a clock shows nine, and it is seven in universal time. -/
def abroad : Moment := ⟨⟨2024, 6, 15⟩, 9, 0, 0, 0, some 7200⟩

/-- A duration beyond 64 bits. -/
def lasting : Execution := { brief "first" 8 with elapsed := 2 ^ 63 }

theorem run_refused {s : Store} {c : Change} {fault : Fault} (h : c.apply s = .error fault) :
    (s.run [c]).1 = [.error fault] := by
  simp only [run, h]

theorem saveWorkflow_refused {w : Workflow} {fault : Fault} (h : Database.checkWorkflow w = .error fault) :
    ((database .opened).run [.saveWorkflow w]).1 = [.error fault] := by
  refine run_refused ?_
  rw [Change.apply, saveWorkflow, Database.saveWorkflow, h]
  rfl

theorem saveExecution_refused {e : Execution} {fault : Fault} (h : Database.checkExecution e = .error fault) :
    ((database .opened).run [.saveExecution e]).1 = [.error fault] := by
  refine run_refused ?_
  rw [Change.apply, saveExecution, Database.saveExecution, h]
  rfl

theorem checkWorkflow_distant : Database.checkWorkflow distant = .error .overflow := by
  have hdata := Database.checkJson_eq_ok (v := distant.toValue) ⟨rfl, by decide +kernel⟩
  rw [Database.checkWorkflow, hdata]
  rfl

theorem checkWorkflow_detailed : Database.checkWorkflow detailed = .error Database.refusal := by
  have hdata := Database.checkJson_eq_ok (v := detailed.toValue) ⟨rfl, by decide +kernel⟩
  rw [Database.checkWorkflow, hdata]
  rfl

theorem checkWorkflow_vast : Database.checkWorkflow vast = .error Database.refusal := by
  have hdata : Database.checkJson vast.toValue = .error Database.refusal := by
    have hwritable : vast.toValue.isWritable = false := by decide +kernel
    have hwrites := Value.writes_write .spaced vast.toValue 0 rfl
    rw [hwritable] at hwrites
    rw [Database.checkJson, Json.render, show Json.write .spaced 0 vast.toValue = .error .badValue from hwrites]
  rw [Database.checkWorkflow, hdata]
  rfl

theorem checkExecution_lasting : Database.checkExecution lasting = .error .overflow := by
  have hkind : lasting.triggerType = .str "manual" := rfl
  rw [Database.checkExecution_eq hkind ⟨rfl, by decide +kernel⟩]
  rfl

/-- In memory everything is kept, times are compared wherever they were taken, and a limit below zero leaves out
what comes last. A database refuses whole numbers that its columns or its JSON cannot hold and descriptions with
parts, compares what clocks show, and takes a limit below zero for none. -/
theorem stores_differ :
    (∀ w ∈ [distant, detailed, vast], w.Settled ∧ w.toValue.isJson = true ∧
      ((memory .empty).run [.saveWorkflow w]).1 = [.ok .saved] ∧
      ((database .opened).run [.saveWorkflow w]).1 ≠ [.ok .saved]) ∧
    (((memory .empty).run [.saveExecution lasting]).1 = [.ok .saved] ∧
      ((database .opened).run [.saveExecution lasting]).1 = [.error .overflow]) ∧
    (((memory .empty).run [.saveExecution (brief "first" 8), .cleanUp abroad 0]).1 = [.ok .saved, .ok (.cleanedUp 0)] ∧
      ((database .opened).run [.saveExecution (brief "first" 8), .cleanUp abroad 0]).1 =
        [.ok .saved, .ok (.cleanedUp 1)]) ∧
    ∃ m d, (memory .empty).run [.saveExecution (brief "first" 8)] = ([.ok .saved], memory m) ∧
      (database .opened).run [.saveExecution (brief "first" 8)] = ([.ok .saved], database d) ∧
      m.listByWorkflow "plan" none ⟨0, -1⟩ = [] ∧
      (d.listByWorkflow "plan" none ⟨0, -1⟩).map List.length = .ok 1 := by
  have hbrief : (brief "first" 8).Storable := storable_brief _ _ (by decide +kernel)
  refine ⟨?_, ⟨rfl, saveExecution_refused checkExecution_lasting⟩, ⟨rfl, ?_⟩, ?_⟩
  · simp only [List.forall_mem_cons]
    have hdistant := saveWorkflow_refused checkWorkflow_distant
    have hdetailed := saveWorkflow_refused checkWorkflow_detailed
    have hvast := saveWorkflow_refused checkWorkflow_vast
    have hsettled := settled_plan
    have hvastSettled : vast.Settled := ⟨hsettled.id_ne, hsettled.uuid_ne, hsettled.triggers, hsettled.configs,
      hsettled.conditions, rfl, hsettled.settings⟩
    refine ⟨⟨{ settled_plan with }, rfl, rfl, ?_⟩, ⟨{ settled_plan with }, rfl, rfl, ?_⟩,
      ⟨hvastSettled, by decide +kernel, rfl, ?_⟩, nofun⟩
    · rw [hdistant]
      decide
    · rw [hdetailed]
      decide
    · rw [hvast]
      decide
  · simp only [run, Change.apply, saveExecution, Database.saveExecution, Database.checkExecution_eq_ok hbrief]
    rfl
  · refine ⟨Memory.empty.saveExecution (brief "first" 8),
      { Database.opened with executions := [("first", .of (brief "first" 8))] }, rfl, ?_,
      List.eq_nil_of_length_eq_zero (by decide +kernel), by decide +kernel⟩
    simp only [run, Change.apply, saveExecution, Database.saveExecution, Database.checkExecution_eq_ok hbrief]
    rfl

end Store

end Flowline

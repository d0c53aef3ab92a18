import Mathlib.Data.List.Basic
import RecordMachine.Proofs.Heap.Objects

/-!
# The heap as a ledger

A heap is asked for something, answers, and may have changed. `Heap.serveAll` writes down all
requests with their answers, the failing ones included. Such a ledger says by itself what the heap
must hold: which ids were given out (`Ledger.made`), which of them were freed (`Ledger.freed`), what
the fields of an object are called (`Ledger.names?`) and what was last put into them
(`Ledger.value?`). So it also says what the heap must answer next (`Ledger.answer`).

`Ledger.Tracks` relates a ledger to a heap. Every request keeps the relation
(`Ledger.Tracks.serve`), which makes the ledger right about the heap after any sequence of requests.
-/

namespace RecordMachine

/-! ## Requests and answers -/

namespace Heap

/-- What a heap can be asked for. -/
inductive Request where
  | alloc (names : List String)
  | free (id : ObjectId)
  | setField (id : ObjectId) (field : String) (value : Value)
  | getField (id : ObjectId) (field : String)
  | object (id : ObjectId)
  | contains (id : ObjectId)

/-- What a heap answers if it does not fail. -/
inductive Answer where
  | made (id : ObjectId)
  | done
  | value (v : Value)
  | record (r : Record)
  | truth (b : Bool)

/-- Serves a request: the answer, and the heap afterwards. -/
def serve (h : Heap) : Request → Except Cause Answer × Heap
  | .alloc names =>
    match h.alloc names with
    | .ok (id, h') => (.ok (.made id), h')
    | .error cause => (.error cause, h)
  | .free id =>
    match h.free id with
    | .ok h' => (.ok .done, h')
    | .error cause => (.error cause, h)
  | .setField id field value =>
    match h.setField id field value with
    | .ok h' => (.ok .done, h')
    | .error cause => (.error cause, h)
  | .getField id field => ((h.getField id field).map .value, h)
  | .object id => ((h.object id).map .record, h)
  | .contains id => (.ok (.truth (h.contains id)), h)

end Heap

structure Heap.Entry where
  request : Heap.Request
  answer : Except Cause Heap.Answer

/-- What was asked of a heap and what it answered, in this order. -/
abbrev Ledger := List Heap.Entry

def Heap.serveAll : Heap → List Heap.Request → Ledger × Heap
  | h, [] => ([], h)
  | h, request :: rest =>
    let (log, last) := (h.serve request).2.serveAll rest
    (⟨request, (h.serve request).1⟩ :: log, last)

/-! ## What a ledger says -/

namespace Heap.Entry

def made? : Heap.Entry → Option ObjectId
  | ⟨.alloc _, .ok (.made id)⟩ => some id
  | _ => none

def freed? : Heap.Entry → Option ObjectId
  | ⟨.free id, .ok _⟩ => some id
  | _ => none

/-- The field names with which the id was given out. -/
def names? (id : ObjectId) : Heap.Entry → Option (List String)
  | ⟨.alloc names, .ok (.made made)⟩ => if made = id then some names else none
  | _ => none

/-- The value that was put into the field of the id. -/
def value? (id : ObjectId) (field : String) : Heap.Entry → Option Value
  | ⟨.setField target name value, .ok _⟩ =>
    if target = id ∧ name = field then some value else none
  | _ => none

/-- Only giving an id out tells its field names. -/
theorem names?_eq_none {e : Heap.Entry} {id : ObjectId} (hmade : e.made? ≠ some id) :
    e.names? id = none := by
  unfold names?
  split
  · exact if_neg fun heq => hmade (congrArg some heq)
  · rfl

end Heap.Entry

namespace Ledger

def made (log : Ledger) : List ObjectId := log.filterMap Heap.Entry.made?

def freed (log : Ledger) : List ObjectId := log.filterMap Heap.Entry.freed?

/-- The id was given out and not freed since. -/
def Live (log : Ledger) (id : ObjectId) : Prop := id ∈ log.made ∧ id ∉ log.freed

instance (log : Ledger) (id : ObjectId) : Decidable (log.Live id) :=
  inferInstanceAs (Decidable (_ ∧ _))

/-- The field names with which an id was given out. -/
def names? (log : Ledger) (id : ObjectId) : Option (List String) :=
  log.findSome? (Heap.Entry.names? id)

/-- The value last put into a field of an id. -/
def value? (log : Ledger) (id : ObjectId) (field : String) : Option Value :=
  log.reverse.findSome? (Heap.Entry.value? id field)

def names (log : Ledger) (id : ObjectId) : List String := (log.names? id).getD []

/-- The value of a field of an object: the last one put there, or nil. -/
def value (log : Ledger) (id : ObjectId) (field : String) : Value := (log.value? id field).getD .nil

/-- The object of an id, field by field. Of fields with the same name the first one counts. -/
def record (log : Ledger) (id : ObjectId) : Record := ⟨Record.fill (log.value id) (log.names id)⟩

/-- What an id without an object is missing for. -/
def absence (log : Ledger) (id : ObjectId) : Cause :=
  if id ∈ log.made then .freedObject id else .noObject id

def object (log : Ledger) (id : ObjectId) : Except Cause Record :=
  if log.Live id then .ok (log.record id) else .error (log.absence id)

/-- What a heap with ids from `base` on has to answer next. -/
def answer (base : ObjectId) (log : Ledger) : Heap.Request → Except Cause Heap.Answer
  | .alloc _ =>
    if base + log.made.length < Decimal.wordLimit then .ok (.made (base + log.made.length))
    else .error .heapExhausted
  | .free id => if log.Live id then .ok .done else .error (log.absence id)
  | .setField id field _ =>
    if log.Live id then
      if field ∈ log.names id then .ok .done else .error (.unknownField id field)
    else .error (log.absence id)
  | .getField id field =>
    if log.Live id then
      if field ∈ log.names id then .ok (.value (log.value id field))
      else .error (.unknownField id field)
    else .error (log.absence id)
  | .object id => if log.Live id then .ok (.record (log.record id)) else .error (log.absence id)
  | .contains id => .ok (.truth (log.Live id))

/-! ## A ledger and its heap -/

/-- The ledger is right about the heap. -/
structure Tracks (base : ObjectId) (log : Ledger) (h : Heap) : Prop where
  base_eq : h.base = base
  made_eq : log.made = List.range' base h.cells.size
  /-- No id lies beyond the machine words. -/
  bounded : ∀ id ∈ log.made, id < Decimal.wordLimit
  freed_made : ∀ id ∈ log.freed, id ∈ log.made
  /-- An id that was not given out has no names and no values. -/
  blank : ∀ id, id ∉ log.made → log.names? id = none ∧ ∀ field, log.value? id field = none
  object_eq : ∀ id, h.object id = log.object id
  count_eq : h.liveCount + log.freed.length = log.made.length

section Append

variable (log log' : Ledger) (e : Heap.Entry) (id : ObjectId)

/-- Ids that were given out later come later. -/
theorem made_append : made (log ++ log') = log.made ++ log'.made := List.filterMap_append

theorem freed_append : freed (log ++ log') = log.freed ++ log'.freed := List.filterMap_append

theorem made_single : made [e] = e.made?.toList := by
  unfold made
  cases hmade : e.made? <;> simp [hmade]

theorem freed_single : freed [e] = e.freed?.toList := by
  unfold freed
  cases hfreed : e.freed? <;> simp [hfreed]

/-- The names of an id are those with which it was given out first. -/
theorem names?_append : names? (log ++ [e]) id = (log.names? id).or (e.names? id) := by
  unfold names?
  rw [List.findSome?_append]
  cases hnames : e.names? id <;> simp [hnames]

/-- The value of a field is the one that was put there last. -/
theorem value?_append (field : String) :
    value? (log ++ [e]) id field = (e.value? id field).or (log.value? id field) := by
  unfold value?
  rw [List.reverse_concat, List.findSome?_cons]
  cases e.value? id field <;> rfl

end Append

/-- What a ledger says to be an object is the record of a live id. -/
theorem object_eq_ok_iff {log : Ledger} {id : ObjectId} {r : Record} :
    log.object id = .ok r ↔ log.Live id ∧ r = log.record id := by
  unfold object
  split
  · next hlive => exact ⟨fun heq => ⟨hlive, (Except.ok.inj heq).symm⟩, fun heq => by rw [heq.2]⟩
  · next hdead => exact ⟨nofun, fun heq => absurd heq.1 hdead⟩

/-- An entry about another id does not change what the ledger says of an id. -/
theorem object_append {log : Ledger} {e : Heap.Entry} {id : ObjectId} (hmade : e.made? ≠ some id)
    (hfreed : e.freed? ≠ some id) (hvalue : ∀ field, e.value? id field = none) :
    object (log ++ [e]) id = log.object id := by
  -- The entry adds no id that matters here, and no value of it either.
  have hmadeIff : id ∈ made (log ++ [e]) ↔ id ∈ log.made := by
    rw [made_append, made_single, List.mem_append, Option.mem_toList]
    exact or_iff_left hmade
  have hfreedIff : id ∈ freed (log ++ [e]) ↔ id ∈ log.freed := by
    rw [freed_append, freed_single, List.mem_append, Option.mem_toList]
    exact or_iff_left hfreed
  have hvalues : value (log ++ [e]) id = log.value id := by
    funext field
    rw [value, value?_append, hvalue, Option.none_or, value]
  have hrecord : record (log ++ [e]) id = log.record id := by
    rw [record, names, names?_append, Heap.Entry.names?_eq_none hmade, Option.or_none, hvalues]
    rfl
  have habsence : absence (log ++ [e]) id = log.absence id := if_congr hmadeIff rfl rfl
  unfold object
  rw [hrecord, habsence]
  exact if_congr (and_congr hmadeIff (not_congr hfreedIff)) rfl rfl

namespace Tracks

variable {base : ObjectId} {log : Ledger} {h h' : Heap}

/-- A heap without objects has an empty ledger. -/
theorem new (base : ObjectId) : Tracks base [] (.new base) where
  base_eq := rfl
  made_eq := rfl
  bounded := nofun
  freed_made := nofun
  blank _ _ := ⟨rfl, fun _ => rfl⟩
  object_eq id := by
    show Heap.object (.new base) id = .error (.noObject id)
    unfold Heap.object
    split <;> rfl
  count_eq := rfl

/-- The id that is given out next is beyond all others. -/
theorem next_not_made (ht : Tracks base log h) : h.base + h.cells.size ∉ log.made := by
  rw [ht.made_eq, ht.base_eq, List.mem_range'_1]
  exact fun hmem => Nat.lt_irrefl _ hmem.2

/-- One more entry is right if it gives out the next id, if it frees and sets nothing but what was
given out, and if the heap shows the change. -/
theorem append (ht : Tracks base log h) {e : Heap.Entry} (hbase : h'.base = h.base)
    (hsize : h'.cells.size = h.cells.size + e.made?.toList.length)
    (hmade : ∀ id, e.made? = some id → id = h.base + h.cells.size ∧ id < Decimal.wordLimit)
    (hfreed : ∀ id, e.freed? = some id → id ∈ log.made)
    (hvalue : ∀ id field, id ∉ log.made → e.value? id field = none)
    (hobject : ∀ id, h'.object id = object (log ++ [e]) id)
    (hcount : h'.liveCount + e.freed?.toList.length = h.liveCount + e.made?.toList.length) :
    Tracks base (log ++ [e]) h' := by
  have hmade' : made (log ++ [e]) = log.made ++ e.made?.toList := by
    rw [made_append, made_single]
  refine ⟨hbase.trans ht.base_eq, ?_, ?_, ?_, ?_, hobject, ?_⟩
  · rw [hmade', ht.made_eq, hsize]
    -- Ids are given out without gaps, so the next one goes on with the range.
    cases he : e.made? with
    | none => exact List.append_nil _
    | some id =>
      rw [(hmade id he).1, ht.base_eq]
      exact (List.range'_1_concat).symm
  · intro id hid
    rw [hmade', List.mem_append, Option.mem_toList] at hid
    exact hid.elim (ht.bounded id) fun he => (hmade id he).2
  · intro id hid
    rw [freed_append, freed_single, List.mem_append, Option.mem_toList] at hid
    rw [hmade']
    exact List.mem_append_left _ (hid.elim (ht.freed_made id) (hfreed id))
  · intro id hid
    rw [hmade', List.mem_append, Option.mem_toList, not_or] at hid
    obtain ⟨hnoNames, hnoValue⟩ := ht.blank id hid.1
    refine ⟨?_, fun field => ?_⟩
    · rw [names?_append, hnoNames, Heap.Entry.names?_eq_none hid.2, Option.none_or]
    · rw [value?_append, hnoValue, hvalue id field hid.1, Option.none_or]
  · rw [hmade', freed_append, freed_single, List.length_append, List.length_append, ← ht.count_eq]
    omega

/-- An entry that gives out, frees and sets nothing says nothing. -/
theorem idle (ht : Tracks base log h) {e : Heap.Entry} (hmade : e.made? = none)
    (hfreed : e.freed? = none) (hvalue : ∀ id field, e.value? id field = none) :
    Tracks base (log ++ [e]) h := by
  refine ht.append rfl ?_ ?_ ?_ (fun id field _ => hvalue id field) ?_ ?_
  · rw [hmade]
    rfl
  · rw [hmade]
    nofun
  · rw [hfreed]
    nofun
  · intro id
    rw [object_append (hmade ▸ nofun) (hfreed ▸ nofun) (hvalue id)]
    exact ht.object_eq id
  · rw [hmade, hfreed]

/-- Making an object is one entry: its id is the next one, and its fields are `nil`, which the
ledger says of an id without values. -/
theorem alloc (ht : Tracks base log h) {names : List String} {id : ObjectId}
    (halloc : h.alloc names = .ok (id, h')) :
    Tracks base (log ++ [⟨.alloc names, .ok (.made id)⟩]) h' := by
  have hfresh := ht.next_not_made
  obtain ⟨hid, hlt, hh'⟩ := Heap.alloc_eq_ok halloc
  rw [← hid] at hfresh
  refine ht.append ?_ ?_ ?_ nofun (fun _ _ _ => rfl) ?_ (Heap.liveCount_alloc halloc)
  · rw [hh']
  · rw [hh', Array.size_push]
    rfl
  · rintro _ ⟨⟩
    exact ⟨hid, hlt⟩
  · intro other
    rw [Heap.object_alloc halloc]
    by_cases hother : other = id
    · subst hother
      -- The new object: no earlier entry is about its id.
      rw [if_pos rfl]
      symm
      rw [object_eq_ok_iff]
      refine ⟨⟨?_, ?_⟩, ?_⟩
      · rw [made_append]
        exact List.mem_append_right _ (List.mem_singleton_self other)
      · rw [freed_append]
        exact fun hmem => hfresh (ht.freed_made other (List.append_nil log.freed ▸ hmem))
      · obtain ⟨hnoNames, hnoValue⟩ := ht.blank other hfresh
        rw [Record.make_eq_fill]
        unfold record Ledger.names value
        simp only [names?_append, value?_append, hnoNames, hnoValue, Heap.Entry.names?,
          Heap.Entry.value?, if_true, Option.none_or, Option.getD_some, Option.getD_none]
    · -- Any other id: the entry is not about it.
      rw [if_neg hother, ht.object_eq, object_append]
      · exact fun heq => hother (Option.some.inj heq).symm
      · nofun
      · exact fun _ => rfl

/-- Freeing an object is one entry: the id was given out before, and from now on it is missing
because it was freed. -/
theorem free (ht : Tracks base log h) {id : ObjectId} (hfree : h.free id = .ok h') :
    Tracks base (log ++ [⟨.free id, .ok .done⟩]) h' := by
  obtain ⟨r, hr, rfl⟩ := Heap.free_eq_ok hfree
  have hlive : log.Live id := (object_eq_ok_iff.1 ((ht.object_eq id).symm.trans hr)).1
  refine ht.append (Heap.base_put _ _ _) (Heap.size_put _ _ _) nofun ?_ (fun _ _ _ => rfl) ?_
    (Heap.liveCount_put hr none)
  · rintro _ ⟨⟩
    exact hlive.1
  · intro other
    rw [Heap.object_put hr]
    by_cases hother : other = id
    · -- The ledger still knows that the id was given out, and says why there is no object.
      subst hother
      have hmade : other ∈ made (log ++ [⟨.free other, .ok .done⟩]) := by
        rw [made_append]
        exact List.mem_append_left _ hlive.1
      have hdead : ¬ Live (log ++ [⟨.free other, .ok .done⟩]) other := by
        rintro ⟨_, hkept⟩
        rw [freed_append] at hkept
        exact hkept (List.mem_append_right _ (List.mem_singleton_self other))
      rw [if_pos rfl, object, if_neg hdead, absence, if_pos hmade]
      rfl
    · -- The entry is about one id only, so the ledger says of every other one what it said before.
      rw [if_neg hother, ht.object_eq, object_append]
      · nofun
      · exact fun heq => hother (Option.some.inj heq).symm
      · exact fun _ => rfl

/-- Setting a field is one entry. The record of the id is laid out anew over the same names, with
the values updated in one place. -/
theorem setField (ht : Tracks base log h) {id : ObjectId} {field : String} {v : Value}
    (hset : h.setField id field v = .ok h') :
    Tracks base (log ++ [⟨.setField id field v, .ok .done⟩]) h' := by
  obtain ⟨r, r', hr, hr', rfl⟩ := Heap.setField_eq_ok hset
  obtain ⟨hlive, rfl⟩ := object_eq_ok_iff.1 ((ht.object_eq id).symm.trans hr)
  -- The entry gives no value to a field of any other object.
  have hentry : ∀ other name, other ≠ id →
      Heap.Entry.value? other name ⟨.setField id field v, .ok .done⟩ = none :=
    fun other name hother => if_neg fun hboth => hother hboth.1.symm
  refine ht.append (Heap.base_put _ _ _) (Heap.size_put _ _ _) nofun nofun ?_ ?_
    (Nat.add_right_cancel (Heap.liveCount_put hr (some r')))
  · intro other name hother
    exact hentry other name fun heq => hother (heq ▸ hlive.1)
  · intro other
    rw [Heap.object_put hr]
    by_cases hother : other = id
    · subst hother
      -- For this object it is the last entry, so its value hides the earlier ones of the field.
      have hvalues : value (log ++ [⟨.setField other field v, .ok .done⟩]) other =
          Function.update (log.value other) field v := by
        funext name
        unfold value
        rw [value?_append]
        by_cases hname : name = field
        · subst hname
          simp [Heap.Entry.value?]
        · simp [Heap.Entry.value?, hname, Ne.symm hname]
      rw [if_pos rfl]
      symm
      refine object_eq_ok_iff.2 ⟨⟨?_, ?_⟩, ?_⟩
      · rw [made_append]
        exact List.mem_append_left _ hlive.1
      · rw [freed_append]
        exact fun hmem => hlive.2 (List.append_nil log.freed ▸ hmem)
      · -- Which fields there are was settled when the id was given out.
        have hnames : names (log ++ [⟨.setField other field v, .ok .done⟩]) other
            = log.names other :=
          congrArg (Option.getD · []) ((names?_append _ _ _).trans Option.or_none)
        rw [record, Record.set?_fill] at hr'
        rw [record, hvalues, hnames]
        split at hr'
        · exact (Option.some.inj hr').symm
        · cases hr'
    · -- Every other object is as it was, in the heap and in the ledger.
      rw [if_neg hother, ht.object_eq, object_append]
      · nofun
      · nofun
      · exact fun name => hentry other name hother

/-- Every request keeps the ledger right, whether it succeeds or not. -/
theorem serve (ht : Tracks base log h) (request : Heap.Request) :
    Tracks base (log ++ [⟨request, (h.serve request).1⟩]) (h.serve request).2 := by
  cases request with
  | alloc names =>
    rw [Heap.serve]
    rcases halloc : h.alloc names with cause | ⟨id, h'⟩
    · exact ht.idle rfl rfl fun _ _ => rfl
    · exact ht.alloc halloc
  | free id =>
    rw [Heap.serve]
    rcases hfree : h.free id with cause | h'
    · exact ht.idle rfl rfl fun _ _ => rfl
    · exact ht.free hfree
  | setField id field v =>
    rw [Heap.serve]
    rcases hset : h.setField id field v with cause | h'
    · exact ht.idle rfl rfl fun _ _ => rfl
    · exact ht.setField hset
  | getField id field => exact ht.idle rfl rfl fun _ _ => rfl
  | object id => exact ht.idle rfl rfl fun _ _ => rfl
  | contains id => exact ht.idle rfl rfl fun _ _ => rfl

/-- A ledger that is right remains so over any requests. Induction on them. -/
theorem serveAll (ht : Tracks base log h) (requests : List Heap.Request) :
    Tracks base (log ++ (h.serveAll requests).1) (h.serveAll requests).2 := by
  induction requests generalizing log h with
  | nil =>
    rw [Heap.serveAll, List.append_nil]
    exact ht
  | cons request rest ih =>
    have hrest := ih (ht.serve request)
    rw [List.append_assoc] at hrest
    exact hrest

/-- The ledger knows what the heap answers. -/
theorem answer_eq (ht : Tracks base log h) (request : Heap.Request) :
    (h.serve request).1 = log.answer base request := by
  -- The next id is told by the number of those given out.
  have hlength : log.made.length = h.cells.size := by
    rw [ht.made_eq, List.length_range']
  cases request with
  | alloc names =>
    rw [Heap.serve, Heap.alloc, answer, hlength, ← ht.base_eq]
    by_cases hlt : h.base + h.cells.size < Decimal.wordLimit
    · rw [if_pos hlt, if_pos hlt]
    · rw [if_neg hlt, if_neg hlt]
  | free id =>
    rw [Heap.serve, Heap.free, answer, ht.object_eq, object]
    by_cases hlive : log.Live id
    · rw [if_pos hlive, if_pos hlive]
    · rw [if_neg hlive, if_neg hlive]
  | setField id field v =>
    rw [Heap.serve, Heap.setField, answer, ht.object_eq, object, record]
    by_cases hlive : log.Live id
    · rw [if_pos hlive, if_pos hlive]
      dsimp only
      rw [Record.set?_fill]
      by_cases hfield : field ∈ log.names id
      · rw [if_pos hfield, if_pos hfield]
      · rw [if_neg hfield, if_neg hfield]
    · rw [if_neg hlive, if_neg hlive]
  | getField id field =>
    rw [Heap.serve, Heap.getField, answer, ht.object_eq, object, record]
    by_cases hlive : log.Live id
    · rw [if_pos hlive, if_pos hlive]
      dsimp only
      rw [Record.get?_fill]
      by_cases hfield : field ∈ log.names id
      · rw [if_pos hfield, if_pos hfield]
        rfl
      · rw [if_neg hfield, if_neg hfield]
        rfl
    · rw [if_neg hlive, if_neg hlive]
      rfl
  | object id =>
    rw [Heap.serve, answer, ht.object_eq, object]
    by_cases hlive : log.Live id
    · rw [if_pos hlive, if_pos hlive]
      rfl
    · rw [if_neg hlive, if_neg hlive]
      rfl
  | contains id =>
    rw [Heap.serve, Heap.contains, answer, ht.object_eq, object]
    by_cases hlive : log.Live id
    · rw [if_pos hlive, decide_eq_true hlive]
    · rw [if_neg hlive, decide_eq_false hlive]

/-- The ids given out are those from `base` on, as many as there are. -/
theorem mem_made_iff (ht : Tracks base log h) {id : ObjectId} :
    id ∈ log.made ↔ base ≤ id ∧ id < base + log.made.length := by
  rw [ht.made_eq, List.length_range', List.mem_range'_1]

/-- An id that was given out and has no object has been freed. -/
theorem freed_of_error (ht : Tracks base log h) {id : ObjectId} {cause : Cause}
    (hid : id ∈ log.made)
    (herror : h.object id = .error cause) : cause = .freedObject id ∧ id ∈ log.freed := by
  rw [ht.object_eq, object] at herror
  split at herror
  · cases herror
  · next hdead =>
    refine ⟨?_, Classical.byContradiction fun hkept => hdead ⟨hid, hkept⟩⟩
    rw [absence, if_pos hid] at herror
    exact (Except.error.inj herror).symm

/-- The heap contains an id exactly if the ledger says that it is live. -/
theorem live_iff_contains (ht : Tracks base log h) (id : ObjectId) :
    h.contains id = true ↔ log.Live id := by
  have hanswer := ht.answer_eq (.contains id)
  rw [Heap.serve, answer] at hanswer
  rw [Heap.Answer.truth.inj (Except.ok.inj hanswer), decide_eq_true_iff]

/-- A freed id is not given out again and has no object again. -/
theorem never_again (ht : Tracks base log h) {id : ObjectId} (hid : id ∈ log.freed)
    (later : List Heap.Request) :
    id ∉ (h.serveAll later).1.made ∧ (h.serveAll later).2.contains id = false := by
  have hlater := ht.serveAll later
  -- All ids ever given out are different, the later ones included.
  have hmade : log.made ++ (h.serveAll later).1.made =
      List.range' base (h.serveAll later).2.cells.size := by
    rw [← hlater.made_eq, made_append]
  have hfreed : id ∈ freed (log ++ (h.serveAll later).1) := by
    rw [freed_append]
    exact List.mem_append_left _ hid
  constructor
  · have hnodup : (log.made ++ (h.serveAll later).1.made).Nodup := hmade ▸ List.nodup_range'
    intro hagain
    exact (List.nodup_append.1 hnodup).2.2 id (ht.freed_made id hid) id hagain rfl
  · rw [Bool.eq_false_iff]
    intro hcontains
    exact ((hlater.live_iff_contains id).1 hcontains).2 hfreed

/-- The listing of the heap shows the live ids with their records. -/
theorem mem_live_iff (ht : Tracks base log h) {id : ObjectId} {r : Record} :
    (id, r) ∈ h.live ↔ log.Live id ∧ r = log.record id := by
  rw [Heap.mem_live_iff, ht.object_eq, object_eq_ok_iff]

/-- No cell has an id beyond the machine words. -/
theorem lt_wordLimit (ht : Tracks base log h) {index : Nat} (hindex : index < h.cells.size) :
    h.base + index < Decimal.wordLimit := by
  refine ht.bounded _ ?_
  rw [ht.made_eq, ht.base_eq, List.mem_range'_1]
  exact ⟨Nat.le_add_right _ _, Nat.add_lt_add_left hindex _⟩

end Tracks

/-- However an object is missing, the fault is of one kind. -/
theorem kind_absence (log : Ledger) (id : ObjectId) : (log.absence id).kind = .invalidObject := by
  unfold absence
  split <;> rfl

end Ledger

namespace Heap

theorem serve_of_error {h : Heap} {request : Request} {cause : Cause}
    (herror : (h.serve request).1 = .error cause) : (h.serve request).2 = h := by
  cases request with
  | alloc names =>
    rw [serve] at herror ⊢
    cases halloc : h.alloc names with
    | error cause => rfl
    | ok made =>
      rw [halloc] at herror
      cases herror
  | free id =>
    rw [serve] at herror ⊢
    cases hfree : h.free id with
    | error cause => rfl
    | ok h' =>
      rw [hfree] at herror
      cases herror
  | setField id field v =>
    rw [serve] at herror ⊢
    cases hset : h.setField id field v with
    | error cause => rfl
    | ok h' =>
      rw [hset] at herror
      cases herror
  | getField id field => rfl
  | object id => rfl
  | contains id => rfl

/-- After any requests, failed ones included, a heap is what the ledger of these requests says. -/
theorem faithful_to_ledger (base : ObjectId) (requests : List Request) :
    let log := ((new base).serveAll requests).1
    let h := ((new base).serveAll requests).2
    (∀ request, (h.serve request).1 = log.answer base request) ∧
    (∀ id, (log.absence id).kind = .invalidObject) ∧
    log.made = List.range' base log.made.length ∧
    (∀ id ∈ log.freed, ∀ later,
      id ∉ (h.serveAll later).1.made ∧ (h.serveAll later).2.contains id = false) ∧
    (∀ id field v h', h.setField id field v = .ok h' →
      (∀ other, other ≠ id → h'.object other = h.object other) ∧
      ∀ other name, h'.getField other name =
        if other = id ∧ name = field then .ok v else h.getField other name) ∧
    (∀ id r, (id, r) ∈ h.live ↔ log.Live id ∧ r = log.record id) ∧
    (h.live.map Prod.fst).Pairwise (· < ·) ∧
    (∀ index < h.cells.size, h.base + index < Decimal.wordLimit) ∧
    h.liveCount + log.freed.length = log.made.length ∧
    ∀ request cause, (h.serve request).1 = .error cause → (h.serve request).2 = h := by
  intro log h
  -- Everything else is read off the invariant that the ledger tracks the heap.
  have ht : Ledger.Tracks base log h := (Ledger.Tracks.new base).serveAll requests
  refine ⟨ht.answer_eq, log.kind_absence, ?_, fun id hid => ht.never_again hid, ?_,
    fun id r => ht.mem_live_iff, h.pairwise_live, fun index => ht.lt_wordLimit, ht.count_eq,
    fun request cause => serve_of_error⟩
  · rw [ht.made_eq, List.length_range']
  · intro id field v h' hset
    exact ⟨fun other => object_setField hset, getField_setField hset⟩

/-- Requests at the end of the machine words: a repeated field name, an allocation that fails, and
an object that is freed twice. -/
def lastRequests : List Request :=
  [.alloc ["x", "y", "x"], .setField (Decimal.wordLimit - 2) "x" (.int 7), .alloc ["z"], .alloc [],
    .free (Decimal.wordLimit - 1), .free (Decimal.wordLimit - 1),
    .setField (Decimal.wordLimit - 2) "z" .nil]

/-- The second object takes the last id there is; the third one is refused, and freeing the last one
does not make room for it. -/
theorem faithful_to_ledger_lastRequests :
    let log := ((new (Decimal.wordLimit - 2)).serveAll lastRequests).1
    let h := ((new (Decimal.wordLimit - 2)).serveAll lastRequests).2
    log.made = [Decimal.wordLimit - 2, Decimal.wordLimit - 1] ∧
      log.freed = [Decimal.wordLimit - 1] ∧
    log.record (Decimal.wordLimit - 2) = ⟨[("x", .int 7), ("y", .nil), ("x", .nil)]⟩ ∧
    (h.serve (.alloc [])).1 = .error .heapExhausted ∧
    (h.serveAll lastRequests).2.contains (Decimal.wordLimit - 1) = false ∧ h.liveCount + 1 = 2 := by
  obtain ⟨hanswer, _, _, hfreed, _, _, _, _, hcount, _⟩ :=
    faithful_to_ledger (Decimal.wordLimit - 2) lastRequests
  exact ⟨rfl, rfl, rfl, hanswer (.alloc []), (hfreed _ (List.mem_singleton_self _) lastRequests).2,
    hcount⟩

end Heap

end RecordMachine

import RecordMachine.Proofs.Heap.Ledger
import RecordMachine.Proofs.Lowering.Literals
import RecordMachine.Proofs.Machine.Trace

/-!
# References

Where do the objects come from that a machine gets to see? An instruction finds them on its operand
stack, in a slot or in a field of another object, or it allocates one; values that are computed or
read are no objects (`Instruction.Effect.holds`). So if the code itself names no object, every one
that a state holds has been given out by the heap of the machine, in this run or in an earlier one.

The history of a machine is the ledger of all that its steps have asked of the heap
(`Machine.Reachable`). It is right about the heap, since a step serves its request, and it accounts
for all objects that the state holds (`Machine.Accounted`). An instruction that finds no object for
an id can therefore blame nothing but that the object has been freed.
-/

namespace RecordMachine

/-! ## What a state holds -/

def Activation.Holds (a : Activation) (v : Value) : Prop := v ∈ a.slots ∨ v ∈ a.stack

/-- The value is in a field of an object that has not been freed. -/
def Heap.Holds (h : Heap) (v : Value) : Prop := ∃ id r, h.object id = .ok r ∧ v ∈ r.values

/-- The value is in a slot or on the operand stack of an activation, or in a field of an object. -/
def State.Holds (s : State) (v : Value) : Prop := (∃ a ∈ s.frames, a.Holds v) ∨ s.heap.Holds v

/-- A new heap has no objects, so none with a value in a field. -/
theorem Heap.not_holds_new (base : ObjectId) (v : Value) : ¬ (Heap.new base).Holds v := by
  rintro ⟨id, r, hobject, _⟩
  exact absurd (Heap.lt_of_object_eq_ok hobject).2
    (Nat.not_lt.2 (Heap.lt_of_object_eq_ok hobject).1)

section Heap

variable {h h' : Heap} {id : ObjectId} {v w : Value}

/-- A new object brings nothing but `nil` into the heap. -/
theorem Heap.holds_of_alloc {names : List String} (halloc : h.alloc names = .ok (id, h'))
    (hw : h'.Holds w) : w = .nil ∨ h.Holds w := by
  obtain ⟨other, r, hobject, hmem⟩ := hw
  rw [Heap.object_alloc halloc] at hobject
  split at hobject
  · cases hobject
    exact .inl (Record.eq_nil_of_mem_make hmem)
  · exact .inr ⟨other, r, hobject, hmem⟩

theorem Heap.holds_of_free (hfree : h.free id = .ok h') (hw : h'.Holds w) : h.Holds w := by
  obtain ⟨r', hr', rfl⟩ := Heap.free_eq_ok hfree
  obtain ⟨other, r, hobject, hmem⟩ := hw
  rw [Heap.object_put hr'] at hobject
  split at hobject
  · cases hobject
  · exact ⟨other, r, hobject, hmem⟩

/-- Setting a field brings its value into the heap. -/
theorem Heap.holds_of_setField {field : String} (hset : h.setField id field v = .ok h')
    (hw : h'.Holds w) : w = v ∨ h.Holds w := by
  obtain ⟨old, new, hold, hnew, rfl⟩ := Heap.setField_eq_ok hset
  obtain ⟨other, r, hobject, hmem⟩ := hw
  rw [Heap.object_put hold] at hobject
  split at hobject
  · cases hobject
    exact (Record.mem_values_of_set? hnew hmem).imp_right fun hmem => ⟨id, old, hold, hmem⟩
  · exact .inr ⟨other, r, hobject, hmem⟩

theorem Heap.holds_of_getField {field : String} (hget : h.getField id field = .ok v) :
    h.Holds v := by
  obtain ⟨r, hr, hv⟩ := Heap.getField_eq_ok hget
  exact ⟨id, r, hr, Record.mem_values_of_get? hv⟩

end Heap

namespace Activation

variable {a top : Activation} {v w : Value}

/-- An activation with the same slots and fewer operands holds no more. -/
theorem Holds.of_subset (hw : top.Holds w) (hslots : top.slots = a.slots)
    (hstack : top.stack ⊆ a.stack) : a.Holds w :=
  hw.imp (fun hslot => hslots ▸ hslot) fun hmem => hstack hmem

theorem Holds.of_push (hw : (a.push v).Holds w) : w = v ∨ a.Holds w := by
  rcases hw with hslot | hmem
  · exact .inr (.inl hslot)
  · exact (List.mem_cons.1 hmem).imp_right .inr

/-- Storing adds one value, and `nil` for the slots that it makes. -/
theorem Holds.of_store {slot : Nat} (hw : (a.store slot v).Holds w) :
    w = v ∨ w = .nil ∨ a.Holds w := by
  unfold Activation.store at hw
  split at hw
  · rcases hw with hslot | hmem
    · exact (List.mem_or_eq_of_mem_set hslot).symm.imp_right fun hslot => .inr (.inl hslot)
    · exact .inr (.inr (.inr hmem))
  · rcases hw with hslot | hmem
    · rcases List.mem_append.1 hslot with hslot | hlast
      · rcases List.mem_append.1 hslot with hslot | hpad
        · exact .inr (.inr (.inl hslot))
        · exact .inr (.inl (List.eq_of_mem_replicate hpad))
      · exact .inl (List.mem_singleton.1 hlast)
    · exact .inr (.inr (.inr hmem))

end Activation

/-! ## What an instruction asks of the heap -/

/-- What the instruction asks of the heap, with these operands. -/
def Instruction.request? (i : Instruction) (stack : List Value) : Option Heap.Request :=
  match i.opcode, i.operand, stack with
  | .alloc, some (.fields names), _ => some (.alloc names)
  | .free, _, .object id :: _ => some (.free id)
  | .setField, some (.name field), v :: .object id :: _ => some (.setField id field v)
  | .getField, some (.name field), .object id :: _ => some (.getField id field)
  | _, _, _ => none

def State.request? (s : State) : Option Heap.Request :=
  match s.frames with
  | [] => none
  | a :: _ => a.blueprint.code[a.pc]?.bind fun i => i.request? a.stack

/-- The next instruction is that of the innermost activation. -/
theorem State.request?_eq {s : State} {a : Activation} {rest : List Activation} {i : Instruction}
    (hframes : s.frames = a :: rest) (hi : a.blueprint.code[a.pc]? = some i) :
    s.request? = i.request? a.stack := by
  unfold State.request?
  rw [hframes]
  dsimp only
  rw [hi, Option.bind_some]

/-- The ledger of at most one request. -/
def Heap.note (h : Heap) (request? : Option Heap.Request) : Ledger :=
  (request?.map fun request => ⟨request, (h.serve request).1⟩).toList

@[simp] theorem Heap.note_none (h : Heap) : h.note none = [] := rfl

def Opcode.usesHeap : Opcode → Bool
  | .alloc | .free | .setField | .getField => true
  | _ => false

/-- What is computed from operands alone asks nothing of the heap. -/
theorem Opcode.usesHeap_of_computes {op : Opcode} (h : op.computes = true) :
    op.usesHeap = false := by
  cases op <;> cases h <;> rfl

/-- Only four instructions ask anything of the heap. -/
theorem Instruction.request?_eq_none {i : Instruction} (h : i.opcode.usesHeap = false)
    (stack : List Value) : i.request? stack = none := by
  obtain ⟨opcode, operand, comment⟩ := i
  cases opcode <;> cases h <;> rfl

/-- An instruction that goes on has served its request. -/
theorem Instruction.Effect.served {i : Instruction} {a top : Activation} {h h' : Heap}
    (heffect : i.Effect a h top h') :
    (∃ request, i.request? a.stack = some request ∧ (h.serve request).2 = h') ∨
      i.request? a.stack = none ∧ h' = h := by
  cases heffect with
  | @alloc names id _ hop hnames halloc =>
    refine .inl ⟨.alloc names, ?_, ?_⟩
    · unfold Instruction.request?
      rw [hop, Operand.eq_of_fields? hnames]
    · rw [Heap.serve, halloc]
  | @free id rest _ hop hstack hfree =>
    refine .inl ⟨.free id, ?_, ?_⟩
    · unfold Instruction.request?
      rw [hop, hstack]
    · rw [Heap.serve, hfree]
  | @setField field v id rest _ hop hfield hstack hset =>
    refine .inl ⟨.setField id field v, ?_, ?_⟩
    · unfold Instruction.request?
      rw [hop, Operand.eq_of_name? hfield, hstack]
    · rw [Heap.serve, hset]
  | @getField field v id rest hop hfield hstack hget =>
    refine .inl ⟨.getField id field, ?_, rfl⟩
    unfold Instruction.request?
    rw [hop, Operand.eq_of_name? hfield, hstack]
  -- All other instructions leave the heap alone.
  | compute hop =>
    exact .inr ⟨Instruction.request?_eq_none (Opcode.usesHeap_of_computes hop) _, rfl⟩
  | push hop | pop hop | load hop | store hop | jump hop | branch hop | write hop | dup hop
  | swap hop | nop hop =>
    exact .inr ⟨Instruction.request?_eq_none (hop ▸ rfl) _, rfl⟩

/-- An object in a field after an instruction has been there before, or else it was an operand. -/
theorem Instruction.Effect.heap_holds {i : Instruction} {a top : Activation} {h h' : Heap}
    (heffect : i.Effect a h top h') {id : ObjectId} (hheld : h'.Holds (.object id)) :
    a.Holds (.object id) ∨ h.Holds (.object id) := by
  cases heffect with
  | alloc _ _ halloc =>
    rcases Heap.holds_of_alloc halloc hheld with hnil | hheld
    · cases hnil
    · exact .inr hheld
  | free _ _ hfree => exact .inr (Heap.holds_of_free hfree hheld)
  | setField _ _ hstack hset =>
    rcases Heap.holds_of_setField hset hheld with rfl | hheld
    · exact .inl (.inr (hstack ▸ List.mem_cons_self))
    · exact .inr hheld
  | _ => exact .inr hheld

/-- An object that the activation holds after an instruction was held before, by the activation or
by the heap, unless it has just been made. -/
theorem Instruction.Effect.top_holds {i : Instruction} {a top : Activation} {h h' : Heap}
    (heffect : i.Effect a h top h') (hplain : i.forges = false) {id : ObjectId}
    (hheld : top.Holds (.object id)) :
    a.Holds (.object id) ∨ h.Holds (.object id) ∨ id ∈ (h.note (i.request? a.stack)).made := by
  cases heffect with
  | push hop hv =>
    rcases hheld.of_push with rfl | hheld
    · -- The code would name the object.
      unfold Instruction.forges at hplain
      rw [hop, Operand.eq_of_value? hv] at hplain
      cases hplain
    · exact .inl hheld
  | load _ _ hv =>
    rcases hheld.of_push with rfl | hheld
    · exact .inl (.inl (List.mem_of_getElem? hv))
    · exact .inl hheld
  | store _ _ hstack =>
    rcases hheld.of_store with rfl | hnil | hheld
    · exact .inl (.inr (hstack ▸ List.mem_cons_self))
    · cases hnil
    · exact .inl (hheld.of_subset rfl (hstack ▸ List.subset_cons_self _ _))
  | @compute taken rest v _ hstack hv =>
    have hpush : (Activation.push { a with stack := rest } v).Holds (.object id) := hheld
    rcases hpush.of_push with rfl | hheld
    · exact absurd rfl hv
    · exact .inl (hheld.of_subset rfl (hstack ▸ List.subset_append_right _ _))
  | @alloc names id' _ hop hnames halloc =>
    rcases hheld.of_push with heq | hheld
    · -- The object is the one that the request has made.
      cases heq
      refine .inr (.inr ?_)
      unfold Instruction.request? Heap.note
      rw [hop, Operand.eq_of_fields? hnames]
      simp only [Option.map_some, Heap.serve, halloc]
      exact List.mem_singleton_self id
    · exact .inl hheld
  | @getField field v id' rest _ _ hstack hget =>
    have hpush : (Activation.push { a with stack := rest } v).Holds (.object id) := hheld
    rcases hpush.of_push with rfl | hheld
    · exact .inr (.inl (Heap.holds_of_getField hget))
    · exact .inl (hheld.of_subset rfl (hstack ▸ List.subset_cons_self _ _))
  | dup _ hstack =>
    rcases hheld.of_push with rfl | hheld
    · exact .inl (.inr (hstack ▸ List.mem_cons_self))
    · exact .inl hheld
  | swap _ hstack => exact .inl (hheld.of_subset rfl (hstack ▸ (List.Perm.swap _ _ _).subset))
  | setField _ _ hstack _ =>
    refine .inl (hheld.of_subset rfl (hstack ▸ ?_))
    exact List.subset_cons_of_subset _ (List.subset_cons_self _ _)
  | pop _ hstack | branch _ _ hstack | write _ hstack | free _ hstack _ =>
    exact .inl (hheld.of_subset rfl (hstack ▸ List.subset_cons_self _ _))
  | jump => exact .inl (hheld.of_subset rfl (List.Subset.refl _))
  | nop => exact .inl hheld

/-! ## The history of a machine -/

/-- A ledger stays right if at most one request is served. -/
theorem Ledger.Tracks.note {base : ObjectId} {log : Ledger} {h h' : Heap}
    {request? : Option Heap.Request} (ht : Ledger.Tracks base log h)
    (hserved : (∃ request, request? = some request ∧ (h.serve request).2 = h') ∨
      request? = none ∧ h' = h) : Ledger.Tracks base (log ++ h.note request?) h' := by
  rcases hserved with ⟨request, rfl, rfl⟩ | ⟨rfl, rfl⟩
  · exact ht.serve request
  · rw [Heap.note_none, List.append_nil]
    exact ht

/-- The machine can come to this state, and the ledger has what its steps have asked of the heap
until then. A machine may run any number of times, it may be given other devices, and a run may be
abandoned; what is on the heap stays. -/
inductive Machine.Reachable (m : Machine) : Ledger → State → Prop where
  | fresh (console : Console) (profile : Option Profile) :
      Reachable m [] (m.initial console profile)
  | equip {log : Ledger} {s : State} (hs : Reachable m log s) (console : Console)
      (profile : Option Profile) : Reachable m log { s with console, profile }
  | start {log : Ledger} {s : State} {b : Blueprint} (hs : Reachable m log s)
      (hentry : m.entry = .ok b) : Reachable m log (m.begin s b)
  | step {log : Ledger} {s s' : State} (hs : Reachable m log s) (hstep : m.step s = .next s') :
      Reachable m (log ++ s.heap.note s.request?) s'
  | done {log : Ledger} {s s' : State} {v : Value} (hs : Reachable m log s)
      (hstep : m.step s = .done v s') : Reachable m log (finish (.ok v) s')
  | failed {log : Ledger} {s s' : State} {fault : Fault} (hs : Reachable m log s)
      (hstep : m.step s = .failed fault s') : Reachable m log (finish (.error fault) s')

/-- The ledger is right about the heap, and all objects that the state holds were given out. -/
structure Machine.Accounted (m : Machine) (log : Ledger) (s : State) : Prop where
  tracks : Ledger.Tracks m.settings.heapBase log s.heap
  code : ∀ a ∈ s.frames, a.blueprint ∈ m.bytecode.blueprints
  made : ∀ id, s.Holds (.object id) → id ∈ log.made

namespace Machine

variable {m : Machine} {log : Ledger} {s s' : State}

/-- Activations may come and go if they hold nothing new. -/
theorem Accounted.reframe (hs : m.Accounted log s) (hheap : s'.heap = s.heap)
    (hcode : ∀ a ∈ s'.frames, a.blueprint ∈ m.bytecode.blueprints)
    (hheld : ∀ a ∈ s'.frames, ∀ v, a.Holds v → s.Holds v) : m.Accounted log s' where
  tracks := hheap ▸ hs.tracks
  code := hcode
  made id hid := by
    refine hs.made id ?_
    rcases hid with ⟨a, ha, hid⟩ | hid
    · exact hheld a ha _ hid
    · exact .inr (hheap ▸ hid)

/-- A run starts with one activation that holds nothing. -/
theorem Accounted.begin (hs : m.Accounted log s) {b : Blueprint} (hentry : m.entry = .ok b) :
    m.Accounted log (m.begin s b) := by
  refine hs.reframe rfl ?_ ?_
  · exact List.forall_mem_singleton.2 (Bytecode.mem_of_get? (get?_of_entry hentry)).1
  · refine List.forall_mem_singleton.2 ?_
    rintro v (hslot | hmem)
    · cases hslot
    · cases hmem

/-- The end of a run is only reported. -/
theorem Accounted.finish (hs : m.Accounted log s) (result : Except Fault Value) :
    m.Accounted log (finish result s) := by
  cases result with
  | ok v => exact ⟨hs.tracks, hs.code, hs.made⟩
  | error fault => exact ⟨hs.tracks, hs.code, hs.made⟩

/-- An instruction keeps the account, with what it asks of the heap added to the ledger. -/
theorem Accounted.effect (hs : m.Accounted log s) {a top : Activation} {rest : List Activation}
    {i : Instruction} (hunforged : i.forges = false) (hframes : s.frames = a :: rest)
    (heffect : i.Effect { a with pc := a.pc + 1 } s.heap top s'.heap)
    (hframes' : s'.frames = top :: rest) :
    m.Accounted (log ++ s.heap.note (i.request? a.stack)) s' := by
  obtain ⟨ha, hrest⟩ := List.forall_mem_cons.1 (hframes ▸ hs.code)
  have htop : ∀ v, a.Holds v → s.Holds v := fun v hv => .inl ⟨a, hframes ▸ List.mem_cons_self, hv⟩
  -- What was given out before is still in the ledger.
  have hbefore : ∀ id, s.Holds (.object id) →
      id ∈ Ledger.made (log ++ s.heap.note (i.request? a.stack)) := by
    intro id hid
    rw [Ledger.made_append]
    exact List.mem_append_left _ (hs.made id hid)
  refine ⟨hs.tracks.note heffect.served, ?_, ?_⟩
  · rw [hframes']
    exact List.forall_mem_cons.2 ⟨heffect.blueprint_eq ▸ ha, hrest⟩
  · rintro id (⟨b, hb, hid⟩ | hid)
    · rw [hframes'] at hb
      rcases List.mem_cons.1 hb with rfl | hb
      · rcases heffect.top_holds hunforged hid with hid | hid | hnew
        · exact hbefore id (htop _ hid)
        · exact hbefore id (.inr hid)
        · rw [Ledger.made_append]
          exact List.mem_append_right _ hnew
      · exact hbefore id (.inl ⟨b, hframes ▸ List.mem_cons_of_mem a hb, hid⟩)
    · rcases heffect.heap_holds hid with hid | hid
      · exact hbefore id (htop _ hid)
      · exact hbefore id (.inr hid)

/-- A step keeps the account, with its request added to the ledger. -/
theorem Accounted.step (hplain : m.bytecode.Unforged) (hs : m.Accounted log s)
    (hstep : m.step s = .next s') : m.Accounted (log ++ s.heap.note s.request?) s' := by
  obtain ⟨a, rest, i, hframes, hi, hexec⟩ := executes_of_next hstep
  obtain ⟨ha, hrest⟩ := List.forall_mem_cons.1 (hframes ▸ hs.code)
  have hheld : ∀ b ∈ a :: rest, ∀ v, b.Holds v → s.Holds v :=
    fun b hb v hv => .inl ⟨b, hframes ▸ hb, hv⟩
  obtain ⟨hheldTop, hheldRest⟩ := List.forall_mem_cons.1 hheld
  rw [State.request?_eq hframes hi]
  cases hexec with
  | effect heffect hframes' hheap =>
    subst hheap
    have hmem : i ∈ a.blueprint.code.toList := Array.mem_toList_iff.2 (Array.mem_of_getElem? hi)
    exact hs.effect (hplain a.blueprint ha i hmem) hframes heffect hframes'
  | @call name callee _ hop _ hcallee _ hframes' hheap =>
    rw [Instruction.request?_eq_none (hop ▸ rfl), Heap.note_none, List.append_nil]
    refine hs.reframe hheap ?_ ?_
    · rw [hframes']
      exact List.forall_mem_cons.2 ⟨(Bytecode.mem_of_get? hcallee).1,
        List.forall_mem_cons.2 ⟨ha, hrest⟩⟩
    · rw [hframes']
      refine List.forall_mem_cons.2 ⟨?_, List.forall_mem_cons.2 ⟨?_, hheldRest⟩⟩
      · -- The slots of the new activation are operands of its caller.
        rintro v (hslot | hmem)
        · exact hheldTop v (.inr (List.mem_of_mem_take (List.mem_reverse.1 hslot)))
        · cases hmem
      · intro v hv
        exact hheldTop v (hv.of_subset rfl (List.drop_subset _ _))
  | @ret caller others v _ _ hop hcaller hstack hframes' hheap =>
    -- The value that is handed to the caller was an operand of the function that returns.
    rw [Instruction.request?_eq_none (hop ▸ rfl), Heap.note_none, List.append_nil]
    subst hcaller
    obtain ⟨hcaller, hothers⟩ := List.forall_mem_cons.1 hrest
    obtain ⟨hheldCaller, hheldOthers⟩ := List.forall_mem_cons.1 hheldRest
    refine hs.reframe hheap ?_ ?_
    · rw [hframes']
      exact List.forall_mem_cons.2 ⟨hcaller, hothers⟩
    · rw [hframes']
      refine List.forall_mem_cons.2 ⟨?_, hheldOthers⟩
      intro w hw
      rcases hw.of_push with rfl | hw
      · exact hheldTop w (.inr (hstack ▸ List.mem_cons_self))
      · exact hheldCaller w hw

/-- A step that fails keeps the account: it has taken operands at most. -/
theorem Accounted.failed (hs : m.Accounted log s) {fault : Fault}
    (hstep : m.step s = .failed fault s') : m.Accounted log s' := by
  obtain ⟨hheap, hsame | ⟨a, rest, i, left, hframes, _, hleft, hframes'⟩⟩ := left_of_failed hstep
  · refine hs.reframe hheap (hsame ▸ hs.code) ?_
    rw [hsame]
    exact fun a ha v hv => .inl ⟨a, ha, hv⟩
  · obtain ⟨ha, hrest⟩ := List.forall_mem_cons.1 (hframes ▸ hs.code)
    refine hs.reframe hheap ?_ ?_
    · rw [hframes']
      exact List.forall_mem_cons.2 ⟨ha, hrest⟩
    · rw [hframes']
      refine List.forall_mem_cons.2 ⟨?_, ?_⟩
      · intro v hv
        exact .inl ⟨a, hframes ▸ List.mem_cons_self, hv.of_subset rfl hleft.subset⟩
      · intro b hb v hv
        exact .inl ⟨b, hframes ▸ List.mem_cons_of_mem a hb, hv⟩

/-- A step that ends the run leaves no activation. -/
theorem Accounted.done (hs : m.Accounted log s) {v : Value} (hstep : m.step s = .done v s') :
    m.Accounted log s' := by
  obtain ⟨a, left, _, _, hframes', hheap⟩ := executes_of_done hstep
  refine hs.reframe hheap ?_ ?_ <;>
    · rw [hframes']
      nofun

/-- Every state that the machine can come to is accounted for. Induction on how it came there. -/
theorem Reachable.accounted (hplain : m.bytecode.Unforged) (hs : m.Reachable log s) :
    m.Accounted log s := by
  induction hs with
  | fresh console profile =>
    refine ⟨.new _, nofun, ?_⟩
    rintro id (⟨a, ha, _⟩ | hid)
    · cases ha
    · exact absurd hid (Heap.not_holds_new _ _)
  | equip _ console profile ih => exact ⟨ih.tracks, ih.code, ih.made⟩
  | start _ hentry ih => exact ih.begin hentry
  | step _ hstep ih => exact ih.step hplain hstep
  | done _ hstep ih => exact (ih.done hstep).finish _
  | failed _ hstep ih => exact (ih.failed hstep).finish _

/-- Along a trace entries are only added to the ledger. -/
theorem Reachable.trace {is : List Instruction} (htrace : m.Trace s is s')
    (hs : m.Reachable log s) : ∃ log', log <+: log' ∧ m.Reachable log' s' := by
  induction htrace generalizing log with
  | nil s => exact ⟨log, List.prefix_rfl, hs⟩
  | cons _ hstep _ ih =>
    obtain ⟨log', hlog, hs'⟩ := ih (hs.step hstep)
    exact ⟨log', (List.prefix_append _ _).trans hlog, hs'⟩

end Machine

/-! ## Faults about objects -/

/-- An instruction that finds no object for an id blames one that was freed, if all that its
activation holds was given out. -/
theorem Instruction.Blames.freed {i : Instruction} {a : Activation} {h : Heap} {cause : Cause}
    {base : ObjectId} {log : Ledger} (hblames : i.Blames a h cause) (ht : Ledger.Tracks base log h)
    (hmade : ∀ id, a.Holds (.object id) → id ∈ log.made) (hkind : cause.kind = .invalidObject) :
    ∃ id, cause = .freedObject id ∧ id ∈ log.made ∧ id ∈ log.freed := by
  cases hblames with
  | @object id _ hid hobject =>
    have hid := hmade id (.inr hid)
    obtain ⟨hcause, hfreed⟩ := ht.freed_of_error hid hobject
    exact ⟨id, hcause, hid, hfreed⟩
  | operand _ | stack | slot _ | field | exhausted => cases hkind
  | values hoperands =>
    rw [hkind] at hoperands
    cases hoperands
  | console hio => cases hio.symm.trans hkind

/-- A step that fails because of an invalid object has met one that was freed. -/
theorem Machine.Accounted.freed {m : Machine} {log : Ledger} {s s' : State} {fault : Fault}
    (hs : m.Accounted log s) (hstep : m.step s = .failed fault s')
    (hkind : fault.cause.kind = .invalidObject) :
    ∃ id, fault.cause = .freedObject id ∧ id ∈ log.made ∧ id ∈ log.freed := by
  rcases m.step_cases s with ⟨_, h⟩ | ⟨_, _, _, _, h⟩ | ⟨a, rest, i, hframes, _, hexec⟩
  · cases h.symm.trans hstep
    cases hkind
  · cases h.symm.trans hstep
    cases hkind
  · rw [hstep] at hexec
    cases hexec with
    | fails hblames _ _ _ =>
      refine hblames.freed hs.tracks (fun id hid => hs.made id ?_) hkind
      exact .inl ⟨a, hframes ▸ List.mem_cons_self, hid⟩
    | refused _ _ hcause _ _ => cases hcause <;> cases hkind
    | unwritten _ hio _ _ => cases hio.symm.trans hkind

/-! ## Runs -/

/-- There are no wild references. Lowered code names no objects. If code names none, then all
objects that a reachable state holds are among those that the machine has allocated, as are those
that a run returns; and a run that fails because of an invalid object has met one that was allocated
and freed. -/
theorem Machine.no_wild_references :
    (∀ p table bc, Program.lower p table = .ok bc → bc.Unforged) ∧
    ∀ m : Machine, m.bytecode.Unforged → ∀ log s, m.Reachable log s →
      (∀ id, s.Holds (.object id) →
        m.settings.heapBase ≤ id ∧ id < m.settings.heapBase + log.made.length) ∧
      ∀ fuel result s', m.run fuel s = some (result, s') →
        ∃ log' : Ledger, log <+: log' ∧ m.Reachable log' s' ∧
          (∀ id, result = .ok (.object id) →
            m.settings.heapBase ≤ id ∧ id < m.settings.heapBase + log'.made.length) ∧
          ∀ fault, result = .error fault → fault.cause.kind = .invalidObject →
            ∃ id, fault.cause = .freedObject id ∧ id ∈ log'.made ∧ id ∈ log'.freed := by
  refine ⟨fun p table bc => Program.unforged_of_lower, fun m hplain log s hs => ⟨?_, ?_⟩⟩
  · intro id hid
    have haccount := hs.accounted hplain
    exact haccount.tracks.mem_made_iff.1 (haccount.made id hid)
  · intro fuel result s' hrun
    rcases run_cases hrun with
      ⟨cause, hentry, rfl, rfl⟩ | ⟨b, is, last, ended, hentry, htrace, hanswer, rfl⟩
    · refine ⟨log, List.prefix_rfl, hs, nofun, ?_⟩
      rintro _ ⟨⟩ hkind
      cases (kind_of_entry_error hentry).symm.trans hkind
    · -- The last state before the answer can be reached, and whatever it holds is in the ledger.
      obtain ⟨log', hlog, hlast⟩ := (hs.start hentry).trace htrace
      have haccount := hlast.accounted hplain
      cases hstep : m.step last with
      | next _ =>
        rw [hstep] at hanswer
        cases hanswer
      | done v _ =>
        rw [hstep] at hanswer
        cases hanswer
        refine ⟨log', hlog, hlast.done hstep, ?_, fun _ heq => nomatch heq⟩
        rintro id ⟨⟩
        -- The value of the run was the operand on top of the last activation.
        obtain ⟨a, left, hframes, hstack, _, _⟩ := executes_of_done hstep
        refine haccount.tracks.mem_made_iff.1 (haccount.made id (.inl ⟨a, ?_, .inr ?_⟩))
        · rw [hframes]
          exact List.mem_singleton_self a
        · rw [hstack]
          exact List.mem_cons_self
      | failed fault _ =>
        rw [hstep] at hanswer
        cases hanswer
        refine ⟨log', hlog, hlast.failed hstep, (fun _ heq => nomatch heq), ?_⟩
        rintro _ ⟨⟩ hkind
        exact haccount.freed hstep hkind

/-- A program that puts an object into a field of its own, frees it and looks into it once more. -/
def Bytecode.dangling : Bytecode :=
  .ofList
    [⟨"main", 0,
      #[.alloc ["self"], .store 0, .load 0, .load 0, .setField "self", .load 0, .plain .free,
        .load 0, .getField "self", .plain .ret]⟩]

/-- The program fails because of the object that it has allocated and freed. -/
theorem Machine.no_wild_references_dangling :
    Bytecode.dangling.Unforged ∧
    ∃ fault s, ∃ log : Ledger,
      Machine.run ⟨Bytecode.dangling, {}⟩ 9 (Machine.initial ⟨Bytecode.dangling, {}⟩ {}) =
        some (.error fault, s) ∧
      Machine.Reachable ⟨Bytecode.dangling, {}⟩ log s ∧ fault.cause.kind = .invalidObject ∧
      ∃ id, fault.cause = .freedObject id ∧ id ∈ log.made ∧ id ∈ log.freed := by
  have hplain : Bytecode.dangling.Unforged := by decide
  obtain ⟨fault, s, hrun, hkind⟩ : ∃ fault s,
      Machine.run ⟨Bytecode.dangling, {}⟩ 9 (Machine.initial ⟨Bytecode.dangling, {}⟩ {}) =
        some (.error fault, s) ∧ fault.cause.kind = .invalidObject := ⟨_, _, rfl, rfl⟩
  obtain ⟨log, _, hs, _, hfreed⟩ :=
    (no_wild_references.2 ⟨Bytecode.dangling, {}⟩ hplain [] _ (.fresh {} none)).2 9 _ s hrun
  exact ⟨hplain, fault, s, log, hrun, hs, hkind, hfreed fault rfl hkind⟩

end RecordMachine

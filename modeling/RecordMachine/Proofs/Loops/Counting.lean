import RecordMachine.Proofs.Discipline.Lowered
import RecordMachine.Proofs.Lowering.Pieces
import RecordMachine.Proofs.Loops.Bodies

/-!
# Which numbers a counting loop visits

A counting loop between two numbers visits those from the first to the last one, both included, and
is left (`CountingLoop.visits_range`), as long as there is a number of a word behind the last one:
the comparison fails for the first time when the counter has got there. The counter moves with
wrapping arithmetic. Behind the greatest number, or the least one where the counter goes down, it
starts anew from the other end, and no number is past such a bound, so that the loop goes on for
ever (`CountingLoop.visits_all`, `CountingLoop.endless`).

In a compiled program every counting loop between two numbers is a `CountingLoop`
(`Program.exists_countingLoop`): its code stands where its piece says, and a body that can be marked
on its own has no jump that leads out of it (`Marked.target_mem`).
-/

namespace RecordMachine

/-! ## Ranges -/

namespace Direction

/-- What is added to the counter after each round. -/
def sign : Direction → Int
  | .upTo => 1
  | .downTo => -1

/-- The greatest or the least number of a word, towards which the counter moves. -/
def extreme : Direction → Int64
  | .upTo => .maxValue
  | .downTo => .minValue

/-- How many numbers there are from the first to the last one, both included. -/
def count (direction : Direction) (first last : Int) : Nat :=
  (direction.sign * (last - first) + 1).toNat

/-- The numbers from the first to the last one, both included. -/
def range (direction : Direction) (first last : Int) : List Int :=
  (List.range (direction.count first last)).map fun k : Nat => first + direction.sign * k

/-- After `k` rounds the counter has been moved by `k`, up to wrapping. Induction on `k`. -/
theorem iterate_successor (direction : Direction) (v : Int64) (k : Nat) :
    direction.successor^[k] v = Int64.ofInt (v.toInt + direction.sign * k) := by
  induction k with
  | zero => rw [Function.iterate_zero_apply, Int.natCast_zero, Int.mul_zero, Int.add_zero,
      Int64.ofInt_toInt]
  | succ k ih =>
    rw [Function.iterate_succ_apply', ih, Int.natCast_succ, Int.mul_add, ← Int.add_assoc,
      Int64.ofInt_add _ (direction.sign * 1)]
    cases direction with
    | upTo => rfl
    | downTo => exact Int64.sub_eq_add_neg _ _

/-- That a counter has not passed its bound is one inequality, for both directions. -/
theorem admits_iff (direction : Direction) (v bound : Int64) :
    direction.admits v bound = true ↔ 0 ≤ direction.sign * (bound.toInt - v.toInt) := by
  cases direction with
  | upTo =>
    rw [admits, decide_eq_true_iff, Int64.le_iff_toInt_le, sign]
    omega
  | downTo =>
    rw [admits, decide_eq_true_iff, Int64.le_iff_toInt_le, sign]
    omega

/-- No number is past the end of the range of a word. -/
theorem admits_extreme (direction : Direction) (v : Int64) :
    direction.admits v direction.extreme = true := by
  cases direction with
  | upTo => exact decide_eq_true (Int64.le_iff_toInt_le.2 v.toInt_le)
  | downTo => exact decide_eq_true (Int64.le_iff_toInt_le.2 v.minValue_le_toInt)

/-- Up to the number behind the last one nothing wraps around, unless there is no such number. -/
theorem toInt_iterate {direction : Direction} {first last : Int64}
    (hlast : last ≠ direction.extreme) {k : Nat} (hk : k ≤ direction.count first.toInt last.toInt) :
    (direction.successor^[k] first).toInt = first.toInt + direction.sign * k := by
  have hfirst := first.le_toInt
  have hfirst' := first.toInt_lt
  have hlow := last.le_toInt
  have hhigh := last.toInt_lt
  rw [iterate_successor]
  cases direction with
  | upTo =>
    -- The number behind the last one is at most the greatest one of a word.
    have hne : last.toInt ≠ 2 ^ 63 - 1 := fun h =>
      hlast (Int64.toInt_inj.1 (h.trans Int64.toInt_maxValue.symm))
    simp only [count, sign] at hk ⊢
    exact Int64.toInt_ofInt_of_le (by omega) (by omega)
  | downTo =>
    have hne : last.toInt ≠ -2 ^ 63 := fun h =>
      hlast (Int64.toInt_inj.1 (h.trans Int64.toInt_minValue.symm))
    simp only [count, sign] at hk ⊢
    exact Int64.toInt_ofInt_of_le (by omega) (by omega)

/-- The bound is passed right after as many rounds as there are numbers. -/
theorem admits_iterate {direction : Direction} {first last : Int64}
    (hlast : last ≠ direction.extreme) {k : Nat} (hk : k ≤ direction.count first.toInt last.toInt) :
    direction.admits (direction.successor^[k] first) last = true ↔
      k < direction.count first.toInt last.toInt := by
  rw [admits_iff, toInt_iterate hlast hk]
  cases direction <;>
  · simp only [count, sign] at hk ⊢
    omega

end Direction

/-! ## Loops -/

namespace CountingLoop

variable {l : CountingLoop} {m : Machine} {below : List Activation} {s : State}

/-- Between its two numbers a loop visits exactly the range and is left, if there is a number behind
the last one. -/
theorem visits_range (hregular : l.Regular m below s) (hs : l.At below l.base s)
    (hlast : l.last ≠ l.direction.extreme) :
    ∃ vs s', l.Runs m below vs s s' ∧
      vs.map Int64.toInt = l.direction.range l.first.toInt l.last.toInt ∧ l.At below l.stop s' := by
  obtain ⟨s₁, hstarts, hs₁⟩ := starts hregular hs
  have hregular₁ := hregular.after hstarts
  -- As many rounds as there are numbers, since the counter has not passed the bound before.
  obtain ⟨s₂, hrounds, hs₂⟩ := rounds hregular₁ hs₁ _ fun j hj =>
    (Direction.admits_iterate hlast (Nat.le_of_lt hj)).2 hj
  -- After as many rounds as there are numbers the counter is behind the last one, without wrapping.
  have hpassed : l.direction.admits
      (l.direction.successor^[l.direction.count l.first.toInt l.last.toInt] l.first)
      l.last = false := by
    rw [Bool.eq_false_iff, Ne, Direction.admits_iterate hlast (Nat.le_refl _)]
    exact Nat.lt_irrefl _
  obtain ⟨s', hleaves, hs'⟩ := leaves (hregular₁.after hrounds) hs₂ hpassed
  refine ⟨_, s', (hstarts.trans hrounds).trans hleaves, ?_, hs'⟩
  rw [List.nil_append, List.append_nil, List.map_map]
  refine List.map_congr_left fun j hj => ?_
  exact Direction.toInt_iterate hlast (Nat.le_of_lt (List.mem_range.1 hj))

/-- Without a number behind the last one, a loop visits as many numbers as one likes, and starts
anew from the other end of the range of a word. -/
theorem visits_all (hregular : l.Regular m below s) (hs : l.At below l.base s)
    (hlast : l.last = l.direction.extreme) (k : Nat) :
    ∃ s', l.Runs m below
      ((List.range k).map fun j : Nat => Int64.ofInt (l.first.toInt + l.direction.sign * j))
      s s' := by
  obtain ⟨s₁, hstarts, hs₁⟩ := starts hregular hs
  obtain ⟨s', hrounds, _⟩ := rounds (hregular.after hstarts) hs₁ k fun j _ =>
    hlast ▸ Direction.admits_extreme _ _
  refine ⟨s', ?_⟩
  simp only [Direction.iterate_successor] at hrounds
  exact hstarts.trans hrounds

/-- Such a loop is never left. -/
theorem endless (hregular : l.Regular m below s) (hs : l.At below l.base s)
    (hlast : l.last = l.direction.extreme) (n : Nat) :
    m.loop n s = none ∧ ∀ s', m.Steps n s s' → l.Running below s' := by
  obtain ⟨last, k, hsteps, hrunning, hvs⟩ := visits_all hregular hs hlast (n + 1)
  -- Entering the body is a step of its own, so more visits than `n` need more steps.
  have hlt : n < k := by
    have hlength := List.length_filterMap_le (l.entering? below) (m.executed k s)
    rw [hvs, List.length_map, List.length_range, Machine.length_executed hsteps] at hlength
    exact hlength
  refine ⟨?_, fun s' hsteps' => hrunning s' (Machine.mem_executed_of_lt hsteps' hsteps hlt)⟩
  exact Machine.loop_eq_none_of_le (Nat.le_of_lt hlt) (Machine.loop_of_steps hsteps 0)

end CountingLoop

/-! ## Loops of a program -/

/-- Every counting loop between two numbers in a compiled program is one in the code of its
function, and a body that does not set the variable of the loop is lowered to one that spares the
counter. -/
theorem Program.exists_countingLoop {p : Program} {table : TypeTable} {bc : Bytecode}
    (h : p.lower table = .ok bc) {f : FunDecl} (hf : f ∈ p.functions) {var : String}
    {first last : Int64} {direction : Direction} {body : List Stmt} {base : Nat} {scope : Scope}
    {c : Code}
    (hloop : f.Has table p.types ⟨.statement (.forLoop var (.literal (.int first)) direction
      (.literal (.int last)) body), base, scope, c⟩) :
    ∃ l : CountingLoop, bc.get? f.name = some l.blueprint ∧ l.base = base ∧ l.code = c ∧
      l.slot = (scope.enter.counter var).1 ∧ l.direction = direction ∧ l.first = first ∧
      l.last = last ∧ (Stmt.setsIn var body = false → Spares l.slot l.body) := by
  obtain ⟨b, hb, hplaced⟩ := Program.placed_of_has h hf hloop
  have hord := hloop.orderly
  cases hloop.lowered with
  | statement hstmt =>
    cases hstmt with
    | @forLoop _ _ _ _ _ _ _ _ _ _ cbody slot _ inner hstart hcounter hstop hagain hbody =>
      cases hstart
      cases hstop
      subst hagain
      have hinner := hord.enter.counter hcounter
      have hmarked := hbody.marked hinner.enter
      refine ⟨⟨b, direction, slot, base, first, last, cbody, hplaced,
        fun i hi target htarget => hmarked.target_mem hi htarget⟩, hb, rfl, rfl,
        (congrArg Prod.fst hcounter).symm, rfl, rfl, rfl, fun hsets => ?_⟩
      -- The variable of the loop is the only name that stands for the slot of the counter.
      have hvar := Scope.resolve?_counter hcounter
      refine hbody.spares hinner.enter (Scope.holds_of_resolve? hvar).enter fun name hname => ?_
      rw [hinner.resolve?_inj hname hvar]
      exact hsets

/-- What a counting loop between two numbers does in a compiled program, wherever it stands and
whatever its body does, as long as this comes to its end without failing, returning or setting the
counter. That it does not set the counter can be seen in the program: no assignment, no deletion and
no other loop in the body has the variable of the loop for its own. If there is a number of a word
behind the last one, the body is entered with the counter at the numbers from the first to the last
one, in this order, and the loop is left. If the last number is the greatest one of a word, or the
least one where the counter goes down, the loop is never left: behind the last number the counter
starts anew from the other end, and the run does not end. -/
theorem Program.forLoop_visits {p : Program} {table : TypeTable} {bc : Bytecode}
    (h : p.lower table = .ok bc) {f : FunDecl} (hf : f ∈ p.functions) (var : String)
    (first last : Int64) (direction : Direction) (body : List Stmt) :
    let loop := Tree.statement
      (.forLoop var (.literal (.int first)) direction (.literal (.int last)) body)
    (Relation.ReflTransGen (Tree.Inside ⟨table, p.types, f.name⟩) (.statements f.body) loop →
      ∃ base scope c, f.Has table p.types ⟨loop, base, scope, c⟩) ∧
    ∀ base scope c, f.Has table p.types ⟨loop, base, scope, c⟩ →
      ∃ l : CountingLoop, (bc.get? f.name = some l.blueprint ∧ l.base = base ∧ l.code = c ∧
          l.slot = (scope.enter.counter var).1) ∧
        (Stmt.setsIn var body = false → ∀ (m : Machine) (below : List Activation) (s : State),
          l.Completes m below s → l.Regular m below s) ∧
        ∀ (m : Machine) (below : List Activation) (s : State), l.At below base s →
          l.Regular m below s →
          (last ≠ direction.extreme → ∃ vs s', l.Runs m below vs s s' ∧
            vs.map Int64.toInt = direction.range first.toInt last.toInt ∧
            l.At below (base + c.length) s') ∧
          (last = direction.extreme →
            (∀ k, ∃ s', l.Runs m below
              ((List.range k).map fun j : Nat => Int64.ofInt (first.toInt + direction.sign * j))
              s s') ∧
            ∀ n, m.loop n s = none ∧ ∀ s', m.Steps n s s' → l.Running below s') := by
  obtain ⟨b, hb, _⟩ := lower_of_mem h hf
  refine ⟨FunDecl.exists_has hb, ?_⟩
  intro base scope c hloop
  -- The code of the loop has the shape of a `CountingLoop`, about which the rest is known.
  obtain ⟨l, hb, rfl, rfl, hslot, rfl, rfl, rfl, hspares⟩ := exists_countingLoop h hf hloop
  refine ⟨l, ⟨hb, rfl, rfl, hslot⟩, fun hsets m below s hs => hs.regular (hspares hsets), ?_⟩
  intro m below s hs hregular
  have hstop : l.base + l.code.length = l.stop := by
    rw [l.length_code, ← Nat.add_assoc]
    rfl
  rw [hstop]
  refine ⟨CountingLoop.visits_range hregular hs, fun hlast => ⟨?_, ?_⟩⟩
  · exact CountingLoop.visits_all hregular hs hlast
  · exact CountingLoop.endless hregular hs hlast

/-! ## A loop that copies its counter -/

/-- A function with a loop whose body declares a variable with the value of the counter. -/
def FunDecl.copying (first last : Int64) : FunDecl :=
  ⟨"main", "void", [], [.forLoop "i" (.literal (.int first)) .upTo (.literal (.int last))
    [.declare ⟨"copy", none, .path ["i"]⟩]]⟩

def copyingCode (first last : Int64) : Code :=
  forCode .upTo 0 2 [.push (.int first)] [.push (.int last)] [.load 0, .store 1]

/-- The program that consists of that function. -/
def Program.copying (first last : Int64) : Program := ⟨[], [.copying first last]⟩

/-- The loop is the only statement of that function, and its code stands at the start. -/
theorem FunDecl.copying_has (first last : Int64) (table : TypeTable) :
    (FunDecl.copying first last).Has table []
      ⟨.statement (.forLoop "i" (.literal (.int first)) .upTo (.literal (.int last))
        [.declare ⟨"copy", none, .path ["i"]⟩]), 0, Scope.ofParams [], copyingCode first last⟩ := by
  have hloop : Piece.Holds ⟨table, [], "main"⟩
      ⟨.statements ([] ++ [.forLoop "i" (.literal (.int first)) .upTo (.literal (.int last))
        [.declare ⟨"copy", none, .path ["i"]⟩]]), 0, Scope.ofParams [],
        [] ++ (copyingCode first last ++ [])⟩
      ⟨.statement (.forLoop "i" (.literal (.int first)) .upTo (.literal (.int last))
        [.declare ⟨"copy", none, .path ["i"]⟩]), 0, Scope.ofParams [], copyingCode first last⟩ :=
    .statement .nil (Stmt.shape rfl)
  exact ⟨_, _, rfl, .single hloop⟩

/-- A body that stores the counter in the next slot always comes to its end. -/
theorem CountingLoop.completes_of_copy {l : CountingLoop}
    (hbody : l.body = [.load l.slot, .store (l.slot + 1)]) {m : Machine}
    (htrace : m.settings.trace = false) (below : List Activation) (s : State) :
    l.Completes m below s where
  shows := fun _ s₁ _ => Machine.shows_of_trace_false htrace s₁
  completes := by
    intro vs s₁ v s₂ _ hentering hstep
    obtain ⟨⟨blueprint, slots, stack, pc⟩, hframes, hb, hpc, hv⟩ :=
      stands_of_entering hentering hstep
    obtain rfl : blueprint = l.blueprint := hb
    obtain rfl : pc = l.start := hpc
    obtain ⟨_, _, hplaced, _⟩ := l.layout
    rw [hbody] at hplaced
    have hfinish : l.finish = l.start + 2 := by
      unfold finish start
      rw [hbody]
      rfl
    -- Two instructions, neither of which can fail.
    obtain ⟨s₃, hstep₃, hframes₃⟩ := Machine.step_of_perform
      (Machine.shows_of_trace_false htrace s₂) hframes hplaced.head (Action.perform_load hv)
    obtain ⟨s₄, hstep₄, hframes₄⟩ := Machine.step_of_perform
      (Machine.shows_of_trace_false htrace s₃) hframes₃ hplaced.tail.head (Action.perform_store rfl)
    refine ⟨2, s₄, .head hstep₃ (.single hstep₄), ?_, _, hframes₄, ?_, ?_⟩
    · rw [Machine.executed_of_next hstep₃, Machine.executed_of_next hstep₄]
      refine List.forall_mem_cons.2 ⟨?_, List.forall_mem_singleton.2 ?_⟩
      · refine ⟨[], _, hframes, fun _ => ?_⟩
        show l.start ≠ l.finish
        omega
      · refine ⟨[], _, hframes₃, fun _ => ?_⟩
        show l.start + 1 ≠ l.finish
        omega
    · exact Activation.blueprint_store _ _ _
    · rw [hfinish]
      exact Activation.pc_store _ _ _

/-- A run of the function of a loop, at the start of the loop. -/
def CountingLoop.beginning (l : CountingLoop) : State where
  frames := [⟨l.blueprint, [], [], l.base⟩]
  heap := Heap.new 1

/-- The body of the loop in `FunDecl.copying` is one of these. -/
theorem CountingLoop.completes_copying {l : CountingLoop} {first last : Int64}
    (hcode : l.code = copyingCode first last) (hslot : l.slot = 0) (bc : Bytecode) :
    l.Completes ⟨bc, {}⟩ [] l.beginning := by
  have hbody : l.body = [.load l.slot, .store (l.slot + 1)] := by
    rw [l.body_eq, hcode, hslot]
    rfl
  exact completes_of_copy hbody rfl [] l.beginning

/-- Between one and three the loop visits three numbers, and is left. -/
theorem Program.forLoop_visits_copying :
    ∃ (bc : Bytecode) (l : CountingLoop) (vs : List Int64) (s' : State),
      (copying 1 3).lower {} = .ok bc ∧ bc.get? "main" = some l.blueprint ∧
      l.Regular ⟨bc, {}⟩ [] l.beginning ∧
      l.Runs ⟨bc, {}⟩ [] vs l.beginning s' ∧ vs.map Int64.toInt = [1, 2, 3] ∧ l.At [] 14 s' := by
  have hlower : ∃ bc, (copying 1 3).lower {} = .ok bc := ⟨_, rfl⟩
  obtain ⟨bc, hlower⟩ := hlower
  obtain ⟨l, ⟨hb, hbase, hcode, hslot⟩, hregular, hvisits⟩ :=
    (forLoop_visits hlower List.mem_cons_self "i" 1 3 .upTo _).2 _ _ _ (FunDecl.copying_has 1 3 {})
  have hregular := hregular rfl _ _ _ (CountingLoop.completes_copying hcode hslot bc)
  obtain ⟨vs, s', hruns, hvs, hs'⟩ :=
    (hvisits ⟨bc, {}⟩ [] l.beginning ⟨_, rfl, rfl, hbase⟩ hregular).1 (by decide)
  exact ⟨bc, l, vs, s', hlower, hb, hregular, hruns, hvs, hs'⟩

/-- From the greatest number to the greatest number there is one, but the loop goes on with the
least one and is never left. -/
theorem Program.forLoop_endless :
    ∃ (bc : Bytecode) (l : CountingLoop),
      (copying .maxValue .maxValue).lower {} = .ok bc ∧ bc.get? "main" = some l.blueprint ∧
      l.code = copyingCode .maxValue .maxValue ∧ l.At [] l.base l.beginning ∧
      l.Regular ⟨bc, {}⟩ [] l.beginning ∧
      (∃ s', l.Runs ⟨bc, {}⟩ [] [.maxValue, .minValue] l.beginning s') ∧
      ¬∃ vs s', l.Runs ⟨bc, {}⟩ [] vs l.beginning s' ∧
        vs.map Int64.toInt = Direction.upTo.range Int64.maxValue.toInt Int64.maxValue.toInt ∧
        l.At [] l.stop s' := by
  have hlower : ∃ bc, (copying .maxValue .maxValue).lower {} = .ok bc := ⟨_, rfl⟩
  obtain ⟨bc, hlower⟩ := hlower
  obtain ⟨l, hb, hbase, hcode, hslot, hdirection, hfirst, hlast, hspares⟩ :=
    exists_countingLoop hlower List.mem_cons_self (FunDecl.copying_has .maxValue .maxValue {})
  have hregular := (CountingLoop.completes_copying hcode hslot bc).regular (hspares rfl)
  have hs : l.At [] l.base l.beginning := ⟨_, rfl, rfl, rfl⟩
  have hextreme : l.last = l.direction.extreme := by
    rw [hlast, hdirection]
    rfl
  refine ⟨bc, l, hlower, hb, hcode, hs, hregular, ?_, ?_⟩
  · have htwo := CountingLoop.visits_all hregular hs hextreme 2
    rw [hfirst, hdirection] at htwo
    exact htwo
  · rintro ⟨vs, s', ⟨n, hsteps, _⟩, _, a, hframes, _, hpc⟩
    -- A loop that has been left would stand behind its code, and it never gets there.
    obtain ⟨inner, a', hframes', _, _, hlt⟩ :=
      (CountingLoop.endless hregular hs hextreme n).2 s' hsteps
    obtain ⟨rfl, hsame⟩ := List.append_inj' (hframes'.symm.trans hframes : _ = [] ++ a :: []) rfl
    cases hsame
    omega

end RecordMachine

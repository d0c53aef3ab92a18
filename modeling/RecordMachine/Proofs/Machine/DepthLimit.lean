import RecordMachine.Proofs.Machine.Progress

/-!
# The limit on calls

A limit on the number of active functions is looked at when a function is called, and nowhere else.
So no call gets a run beyond its limit (`Machine.advance_within`), and a run that is never refused a
call does not notice it (`Machine.advance_limited`).

The function that a run starts in is entered without a look at the limit. Under a limit of zero
there is therefore one activation all the same, which is why the bound is `max limit 1`.
-/

namespace RecordMachine

/-- The machine with another limit on active functions; none if absent. -/
def Machine.limited (m : Machine) (limit : Option Nat) : Machine :=
  { m with settings := { m.settings with maxCallDepth := limit } }

/-- At most `depth` functions are active, and exactly so many where a call was one too many. -/
def Step.Within (depth : Nat) : Step → Prop
  | .next s => s.callDepth ≤ depth
  | .done _ s => s.callDepth ≤ depth
  | .failed fault s =>
    s.callDepth ≤ depth ∧ (fault.cause.kind = .callDepthExceeded → s.callDepth = depth)

/-- The run has ended because a call was one too many. -/
def Step.Overflows : Step → Prop
  | .failed fault _ => fault.cause.kind = .callDepthExceeded
  | _ => False

/-- However a step ends, the number of active functions is within the bound. -/
theorem Step.Within.callDepth_le {depth : Nat} {r : Step} (h : r.Within depth) :
    r.state.callDepth ≤ depth := by
  cases r with
  | next s => exact h
  | done v s => exact h
  | failed fault s => exact h.1

/-- A run that has ended so has failed for it. -/
theorem Step.Overflows.exists_fault {r : Step} {result : Except Fault Value} {s : State}
    (h : r.Overflows) (hanswer : r.answer? = some (result, s)) :
    ∃ fault, result = .error fault ∧ fault.cause.kind = .callDepthExceeded := by
  cases r with
  | next _ => exact h.elim
  | done _ _ => exact h.elim
  | failed fault _ =>
    cases hanswer
    exact ⟨fault, rfl, h⟩

namespace Machine

section Bound

variable {m : Machine} {limit : Nat}

/-- Whether a call would be one too many. -/
theorem atLimit_eq (hlimit : m.settings.maxCallDepth = some limit) (depth : Nat) :
    m.atLimit depth = if limit ≤ depth then some limit else none := by
  unfold atLimit
  rw [hlimit]

/-- A call that succeeds has found room for one more activation. -/
theorem room_of_enter {s s' : State} {a : Activation} {rest : List Activation} {name : String}
    (henter : m.enter s a rest name = .ok s') :
    m.atLimit (rest.length + 1) = none ∧ s'.callDepth = rest.length + 2 := by
  obtain ⟨callee, args, caller, _, hroom, _, rfl⟩ := enter_eq_ok henter
  exact ⟨hroom, rfl⟩

/-- A refused call leaves the caller innermost; if that is because of the limit, the limit is
reached. -/
theorem Refuses.limit_le {depth : Nat} {stack : List Value} {name : String} {cause : Cause}
    (hcause : m.Refuses depth stack name cause) (hlimit : m.settings.maxCallDepth = some limit)
    (hkind : cause.kind = .callDepthExceeded) : limit ≤ depth := by
  cases hcause with
  | unknown _ => cases hkind
  | arguments _ _ => cases hkind
  | limit hreached =>
    rw [atLimit_eq hlimit] at hreached
    split at hreached
    · next hle => exact hle
    · cases hreached

/-- An instruction stays within the limit: only a call adds an activation, and it has found room. -/
theorem execute_within {s : State} {a : Activation} {rest : List Activation} {i : Instruction}
    {place : Location} (hlimit : m.settings.maxCallDepth = some limit)
    (hdepth : rest.length + 1 ≤ max limit 1) :
    (stepOfResult place (m.execute s a rest i)).Within (max limit 1) := by
  have hends := Action.perform_ends i (s.focus a)
  unfold Action.Ends at hends
  unfold execute
  cases hresult : Action.perform i (s.focus a) with
  | error cause l =>
    rw [hresult] at hends
    refine ⟨hdepth, fun hkind => ?_⟩
    -- What an instruction itself fails for is never about calls.
    have hcalls := hends.2.not_isAboutCalls
    rw [hkind] at hcalls
    cases hcalls
  | ok flow l =>
    rw [hresult] at hends
    cases flow with
    | next => exact hdepth
    | call name =>
      dsimp only
      rcases m.enter_cases (s.restore l rest) l.top rest name with
        ⟨callee, s', henter, _⟩ | ⟨cause, henter, hcause⟩
      · obtain ⟨hroom, hlength⟩ := room_of_enter henter
        have hbelow : ¬ limit ≤ rest.length + 1 := by
          intro hle
          rw [atLimit_eq hlimit, if_pos hle] at hroom
          cases hroom
        rw [henter]
        show s'.callDepth ≤ max limit 1
        omega
      · rw [henter]
        refine ⟨hdepth, fun hkind => ?_⟩
        have hle : limit ≤ rest.length + 1 := hcause.limit_le hlimit hkind
        show rest.length + 1 = max limit 1
        omega
    | ret v =>
      cases rest with
      | nil => exact Nat.zero_le _
      | cons caller others => exact Nat.le_of_succ_le hdepth

theorem step_within {s : State} (hlimit : m.settings.maxCallDepth = some limit)
    (hs : s.callDepth ≤ max limit 1) : (m.step s).Within (max limit 1) := by
  rcases m.step_cases s with ⟨_, hstep⟩ | ⟨a, rest, _, _, hstep⟩ | ⟨a, rest, i, hframes, hi, _⟩
  · rw [hstep]
    refine ⟨hs, ?_⟩
    rintro ⟨⟩
  · rw [hstep]
    refine ⟨hs, ?_⟩
    rintro ⟨⟩
  · have hdepth : rest.length + 1 ≤ max limit 1 := by
      unfold State.callDepth at hs
      rw [hframes] at hs
      exact hs
    obtain ⟨ready, hready, _, _, hstep | ⟨cause, _, hkind, hstep⟩⟩ := step_eq (m := m) hframes hi
    · rw [hstep]
      exact execute_within hlimit hdepth
    · rw [hstep]
      have hlength : ready.callDepth = rest.length + 1 := congrArg List.length hready
      -- The trace could not be written, which is no matter of calls.
      refine ⟨hlength ▸ hdepth, fun hexceeded => ?_⟩
      cases hkind.symm.trans hexceeded

/-- A run stays within the limit. Induction on the steps. -/
theorem advance_within (hlimit : m.settings.maxCallDepth = some limit) (n : Nat) {s : State}
    (hs : s.callDepth ≤ max limit 1) : (m.advance n s).Within (max limit 1) := by
  induction n generalizing s with
  | zero => exact hs
  | succ n ih =>
    have hwithin := step_within hlimit hs
    rcases m.advance_cases n s with ⟨mid, hstep, heq⟩ | ⟨_, heq⟩
    · rw [hstep] at hwithin
      rw [heq]
      exact ih hwithin
    · rw [heq]
      exact hwithin

end Bound

section Comparison

variable (m : Machine) {limit : Nat} {wider : Option Nat}

/-- Below a limit there is room under every wider one. -/
theorem atLimit_limited (hwider : ∀ k ∈ wider, limit ≤ k) {depth : Nat} (hdepth : depth < limit) :
    (m.limited wider).atLimit depth = none := by
  cases wider with
  | none => rfl
  | some k =>
    have hle : limit ≤ k := hwider k rfl
    have hroom : ¬ k ≤ depth := by omega
    rw [atLimit_eq (m := m.limited (some k)) rfl, if_neg hroom]

/-- Under a wider limit a call does the same, unless it was one too many. -/
theorem enter_limited (hwider : ∀ k ∈ wider, limit ≤ k) (s : State) (a : Activation)
    (rest : List Activation) (name : String) :
    (m.limited wider).enter s a rest name = (m.limited (some limit)).enter s a rest name ∨
      (m.limited (some limit)).enter s a rest name = .error (.callDepth name limit) := by
  have hbytecode (l : Option Nat) : (m.limited l).bytecode = m.bytecode := rfl
  unfold enter
  rw [hbytecode, hbytecode]
  cases m.bytecode.get? name with
  | none => exact .inl rfl
  | some callee =>
    dsimp only
    rw [atLimit_eq (m := m.limited (some limit)) rfl]
    -- Where the narrower limit is not reached, the wider one is not either.
    by_cases hreached : limit ≤ rest.length + 1
    · rw [if_pos hreached]
      exact .inr rfl
    · rw [if_neg hreached, m.atLimit_limited hwider (Nat.lt_of_not_le hreached)]
      exact .inl rfl

/-- Under a wider limit an instruction does the same, unless it was a call too many. -/
theorem execute_limited (hwider : ∀ k ∈ wider, limit ≤ k) (s : State) (a : Activation)
    (rest : List Activation) (i : Instruction) (place : Location) :
    (m.limited wider).execute s a rest i = (m.limited (some limit)).execute s a rest i ∨
      (stepOfResult place ((m.limited (some limit)).execute s a rest i)).Overflows := by
  unfold execute
  rcases Action.perform i (s.focus a) with ⟨flow, l⟩ | ⟨cause, l⟩
  · cases flow with
    | next => exact .inl rfl
    | call name =>
      dsimp only
      rcases m.enter_limited hwider (s.restore l rest) l.top rest name with hsame | hrefused
      · rw [hsame]
        exact .inl rfl
      · rw [hrefused]
        exact .inr rfl
    | ret v => exact .inl rfl
  · exact .inl rfl

/-- Under a wider limit a step does the same, unless it was a call too many. -/
theorem step_limited (hwider : ∀ k ∈ wider, limit ≤ k) (s : State) :
    (m.limited wider).step s = (m.limited (some limit)).step s ∨
      ((m.limited (some limit)).step s).Overflows := by
  cases hframes : s.frames with
  | nil =>
    refine .inl ?_
    unfold step
    rw [hframes]
  | cons a rest =>
    cases hi : a.blueprint.code[a.pc]? with
    | none =>
      refine .inl ?_
      unfold step
      rw [hframes]
      simp only [hi]
    | some i =>
      -- Showing an instruction does not depend on the limit.
      have hshown (l : Option Nat) (t : State) :
          (m.limited l).showInstruction t a i = m.showInstruction t a i := rfl
      cases hshow :
          m.showInstruction { s with frames := { a with pc := a.pc + 1 } :: rest } a i with
      | mk result shown =>
        cases result with
        | error cause =>
          refine .inl ?_
          unfold step
          rw [hframes]
          simp only [hi, hshown, hshow]
        | ok u =>
          rw [step_of_shown hframes hi ((hshown wider _).trans hshow),
            step_of_shown hframes hi ((hshown (some limit) _).trans hshow)]
          refine (m.execute_limited hwider _ _ rest i _).imp_left fun hsame => ?_
          rw [hsame]

/-- Under a wider limit a run does the same, until a call was one too many. -/
theorem advance_limited (hwider : ∀ k ∈ wider, limit ≤ k) (n : Nat) (s : State) :
    (m.limited wider).advance n s = (m.limited (some limit)).advance n s ∨
      ((m.limited (some limit)).advance n s).Overflows := by
  induction n generalizing s with
  | zero => exact .inl rfl
  | succ n ih =>
    -- A step is the same under both limits, or the run ends here under the narrower one.
    rcases m.step_limited hwider s with hsame | hover
    · rw [advance, advance, hsame]
      cases (m.limited (some limit)).step s with
      | next mid => exact ih mid
      | done v last => exact .inl rfl
      | failed fault last => exact .inl rfl
    · rcases (m.limited (some limit)).advance_cases n s with ⟨mid, hstep, _⟩ | ⟨_, heq⟩
      · rw [hstep] at hover
        exact hover.elim
      · rw [heq]
        exact .inr hover

end Comparison

/-! ## Runs -/

/-- The limit on calls is exact and otherwise invisible. Whatever state a run starts from, at no
moment of it are more functions active than the limit says, or one if it says none; and exactly so
many are active where the run has ended because a call was one too many. A run that ends in any
other way under this limit ends in the same way, and in the same state, under every limit that is
wider and without one. -/
theorem depth_limit_exact (m : Machine) (limit : Nat) (s : State) :
    (∀ b n, ((m.limited (some limit)).advance n
      ((m.limited (some limit)).begin s b)).state.callDepth ≤ max limit 1) ∧
    (∀ fuel fault s', (m.limited (some limit)).run fuel s = some (.error fault, s') →
      fault.cause.kind = .callDepthExceeded → s'.callDepth = max limit 1) ∧
    (∀ wider : Option Nat, (∀ k ∈ wider, limit ≤ k) → ∀ fuel result s',
      (m.limited (some limit)).run fuel s = some (result, s') →
      (∀ fault, result = .error fault → fault.cause.kind ≠ .callDepthExceeded) →
      (m.limited wider).run fuel s = some (result, s')) := by
  -- A run starts with one activation, whatever the limit is.
  have hwithin (b : Blueprint) (n : Nat) :
      ((m.limited (some limit)).advance n ((m.limited (some limit)).begin s b)).Within
        (max limit 1) :=
    advance_within rfl n (Nat.le_max_right limit 1)
  refine ⟨fun b n => (hwithin b n).callDepth_le, ?_, ?_⟩
  · intro fuel fault s' hrun hkind
    cases hentry : (m.limited (some limit)).entry with
    | error cause =>
      rw [run_of_refused hentry] at hrun
      cases hrun
      cases (kind_of_entry_error hentry).symm.trans hkind
    | ok b =>
      obtain ⟨ended, hanswer, rfl⟩ := advance_of_run hentry hrun
      have h := hwithin b fuel
      rw [Step.eq_of_answer? hanswer] at h
      exact h.2 hkind
  · intro wider hwider fuel result s' hrun hother
    cases hentry : (m.limited (some limit)).entry with
    | error cause =>
      rw [run_of_refused hentry] at hrun
      rw [run_of_refused (m := m.limited wider) hentry]
      exact hrun
    | ok b =>
      rcases m.advance_limited hwider fuel ((m.limited (some limit)).begin s b) with hsame | hover
      · rw [run_of_entry hentry, ← hsame] at hrun
        rw [run_of_entry (m := m.limited wider) hentry]
        exact hrun
      · obtain ⟨ended, hanswer, _⟩ := advance_of_run hentry hrun
        obtain ⟨fault, hfault, hkind⟩ := hover.exists_fault hanswer
        exact absurd hkind (hother fault hfault)

/-- Three functions, of which the first calls the second, and the second the third. -/
def nested : Machine where
  bytecode := .ofList
    [⟨"main", 0, #[.call "middle", .plain .ret]⟩, ⟨"middle", 0, #[.call "last", .plain .ret]⟩,
      ⟨"last", 0, #[.push .nil, .plain .ret]⟩]

/-- The nested calls need three activations. With three the run ends as it does without a limit;
with two it is refused the last call when there are two, and with none the first call when there is
one. -/
theorem depth_limit_exact_nested :
    (∃ s, (nested.limited (some 3)).run 6 (nested.initial {}) = some (.ok .nil, s) ∧
      (nested.limited none).run 6 (nested.initial {}) = some (.ok .nil, s)) ∧
    (∃ fault s, (nested.limited (some 2)).run 6 (nested.initial {}) = some (.error fault, s) ∧
      fault.cause.kind = .callDepthExceeded ∧ s.callDepth = 2) ∧
    (∃ fault s, (nested.limited (some 0)).run 6 (nested.initial {}) = some (.error fault, s) ∧
      fault.cause.kind = .callDepthExceeded ∧ s.callDepth = 1) := by
  obtain ⟨returned, hreturned⟩ : ∃ s, (nested.limited (some 3)).run 6 (nested.initial {}) =
      some (.ok .nil, s) := ⟨_, rfl⟩
  obtain ⟨fault, refused, hrefused, hkind⟩ : ∃ fault s,
      (nested.limited (some 2)).run 6 (nested.initial {}) = some (.error fault, s) ∧
        fault.cause.kind = .callDepthExceeded := ⟨_, _, rfl, rfl⟩
  obtain ⟨fault₀, refused₀, hrefused₀, hkind₀⟩ : ∃ fault s,
      (nested.limited (some 0)).run 6 (nested.initial {}) = some (.error fault, s) ∧
        fault.cause.kind = .callDepthExceeded := ⟨_, _, rfl, rfl⟩
  refine ⟨⟨returned, hreturned, ?_⟩, ⟨fault, refused, hrefused, hkind, ?_⟩,
    ⟨fault₀, refused₀, hrefused₀, hkind₀, ?_⟩⟩
  · have hother : ∀ fault : Fault, Except.ok Value.nil = Except.error fault →
        fault.cause.kind ≠ .callDepthExceeded := by
      rintro fault ⟨⟩
    have hwider : ∀ k ∈ (none : Option Nat), 3 ≤ k := by
      rintro k ⟨⟩
    exact (depth_limit_exact nested 3 _).2.2 none hwider 6 _ _ hreturned hother
  · exact (depth_limit_exact nested 2 _).2.1 6 fault refused hrefused hkind
  · exact (depth_limit_exact nested 0 _).2.1 6 fault₀ refused₀ hrefused₀ hkind₀

end Machine

end RecordMachine

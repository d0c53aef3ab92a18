/-!
# Dictionaries

Tables of named entries. Setting the entry of a name again replaces it.
-/

namespace RecordMachine

/-- A table of named entries, each name once. -/
structure Dictionary (β : Type) where
  entries : List (String × β) := []

namespace Dictionary

variable {β : Type}

def get? (d : Dictionary β) (name : String) : Option β :=
  (d.entries.find? fun e => e.1 == name).map Prod.snd

/-- The entries with the one of a name replaced, or added at the end. -/
def setIn (name : String) (value : β) : List (String × β) → List (String × β)
  | [] => [(name, value)]
  | (other, old) :: rest =>
    if other = name then (other, value) :: rest else (other, old) :: setIn name value rest

def set (d : Dictionary β) (name : String) (value : β) : Dictionary β :=
  ⟨setIn name value d.entries⟩

/-- The dictionary of a list, in which a later entry replaces an earlier one of its name. -/
def ofList (entries : List (String × β)) : Dictionary β :=
  entries.foldl (fun d e => d.set e.1 e.2) {}

theorem get?_set (d : Dictionary β) (name other : String) (value : β) :
    (d.set name value).get? other = if name = other then some value else d.get? other := by
  unfold set get?
  induction d.entries with
  | nil =>
    by_cases h : name = other <;> simp [setIn, h]
  | cons e rest ih =>
    obtain ⟨key, old⟩ := e
    rw [setIn]
    by_cases hkey : key = name
    · subst hkey
      by_cases h : key = other <;> simp [h]
    · rw [if_neg hkey, List.find?_cons, List.find?_cons]
      by_cases hother : key = other
      · subst hother
        have hne : ¬name = key := fun heq => hkey heq.symm
        simp [hne]
      · have hcmp : (key == other) = false := by simpa using hother
        rw [hcmp]
        exact ih

theorem get?_ofList (entries : List (String × β)) (name : String) :
    (ofList entries).get? name = (entries.reverse.find? fun e => e.1 == name).map Prod.snd := by
  have hfold : ∀ (es : List (String × β)) (d : Dictionary β),
      (es.foldl (fun d e => d.set e.1 e.2) d).get? name
        = ((es.reverse.find? fun e => e.1 == name).map Prod.snd).or (d.get? name) := by
    intro es
    induction es with
    | nil =>
      intro d
      simp
    | cons e rest ih =>
      intro d
      rw [List.foldl_cons, ih, get?_set, List.reverse_cons, List.find?_append]
      cases rest.reverse.find? fun e => e.1 == name with
      | some found => simp
      | none =>
        by_cases h : e.1 = name <;> simp [h]
  have h := hfold entries {}
  rw [ofList, h]
  simp [get?]

end Dictionary

end RecordMachine

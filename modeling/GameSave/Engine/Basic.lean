import GameSave.Consultation
import GameSave.Delegate.Catalog
import GameSave.Upgrade
/-!
Engines, as far as saving and loading go: their settings, the delegates and upgrades that they
know, and whom they consult.
-/

namespace GameSave

/-- An engine that saves and loads games with delegates of type `δ`. -/
structure Engine (δ : Type) where
  settings : Settings
  catalog : DelegateCatalog δ
  upgrades : UpgradeTable
  advisors : Advisors

namespace Engine

/-- An engine that knows the types that every engine has, without upgrades and with nobody to
consult. -/
def standard {δ : Type} (embed : BuiltinDelegate → δ) (settings : Settings) : Engine δ :=
  ⟨settings, .builtin embed, .empty, .headless⟩

def version {δ : Type} (e : Engine δ) : Version := e.settings.engineVersion

end Engine

end GameSave

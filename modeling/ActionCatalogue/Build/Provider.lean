import ActionCatalogue.App.Action
import ActionCatalogue.Build.Diagnostic
import ActionCatalogue.Build.Policy
import ActionCatalogue.Typing.Normalizer

/-!
Sources of apps. A provider never fails as a whole: what it cannot build it leaves out and reports.
-/

namespace ActionCatalogue

structure BuildContext where
  normalizer : Normalizer := {}
  policy : CollisionPolicy := .overwrite

structure AppWithActions where
  app : App
  actions : List Action := []

structure Supply where
  apps : List AppWithActions
  diagnostics : Diagnostics := []

structure Provider where
  name : String
  provide : BuildContext → Supply

def Provider.fixed (name : String) (apps : List AppWithActions) : Provider where
  name := name
  provide _ := { apps }

end ActionCatalogue

import NetKit.Text

/-!
# Version — the name and version under which the library presents itself
-/

namespace NetKit

/-- The name and the version of the library. -/
def versionText : Text := "inet_endpoint 0.1.0".toList

end NetKit

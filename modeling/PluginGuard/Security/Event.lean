import PluginGuard.Json.Value
import PluginGuard.Security.Redaction

/-!
# Security events

Occurrences that are put on record. Free text that comes from a plugin is
redacted before.
-/
namespace PluginGuard

inductive SecurityEvent
  | accessDenied (operation identity argument : String)
  | scannerFailure (plugin scanner error : String)
  deriving DecidableEq, Repr

namespace SecurityEvent

def recorded : SecurityEvent → SecurityEvent
  | accessDenied operation identity argument =>
    accessDenied operation identity (Redaction.redact argument)
  | scannerFailure plugin scanner error => scannerFailure plugin scanner (Redaction.redact error)

def written : SecurityEvent → Json
  | accessDenied operation identity argument =>
    .object [("type", .text "access_denied"), ("operation", .text operation),
      ("identity", .text identity), ("argument", .text argument)]
  | scannerFailure plugin scanner error =>
    .object [("type", .text "scanner_failure"), ("plugin", .text plugin),
      ("scanner", .text scanner), ("error", .text error)]

end SecurityEvent

end PluginGuard

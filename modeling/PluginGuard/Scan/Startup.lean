import PluginGuard.Archive.Open
import PluginGuard.Registry
import PluginGuard.Scan.Quarantine

/-!
# The startup scan

Every plugin is examined before it is decided whether the host may start, so that
one pass shows every problem. An archive is passed over, cannot be read, or is
scanned and dealt with. The pass ends early only if a scanner fails and the policy
is to shut down.
-/
namespace PluginGuard

structure PluginReport where
  plugin : String
  jar : Path
  outcomes : List ScanOutcome
  enforcement : Enforcement
  deriving DecidableEq, Repr

inductive Examined
  | excluded (path : Path)
  | unreadable (path : Path) (reason : AnalysisError)
  | scanned (report : PluginReport)
  deriving DecidableEq, Repr

structure StartupReport where
  plugins : List PluginReport
  excluded : List Path
  unreadable : List (Path × AnalysisError)
  deriving DecidableEq, Repr

namespace StartupReport

def empty : StartupReport := ⟨[], [], []⟩

def add (r : StartupReport) : Examined → StartupReport
  | .excluded path => { r with excluded := r.excluded ++ [path] }
  | .unreadable path reason => { r with unreadable := r.unreadable ++ [(path, reason)] }
  | .scanned report => { r with plugins := r.plugins ++ [report] }

def ofExamined (es : List Examined) : StartupReport := es.foldl add empty

def blocking (r : StartupReport) : List PluginReport :=
  r.plugins.filter (·.enforcement.blocksStartup)

/-- Nothing in an archive that cannot be read was scanned, so it blocks as well. -/
def mustAbort (r : StartupReport) : Bool := !r.unreadable.isEmpty || !r.blocking.isEmpty

end StartupReport

structure StartupScan where
  analysis : Analysis
  quarantine : Path
  /-- Archives that could not be opened before the pass. -/
  unreadable : List (Path × AnalysisError)

namespace StartupScan

def excludes (s : StartupScan) (path : Path) : Bool :=
  s.analysis.settings.exclusions.any (·.same path)

def examineUnreadable (s : StartupScan) (path : Path) (reason : AnalysisError) : Examined :=
  if s.excludes path then .excluded path else .unreadable path reason

variable {m : Type → Type} [Monad m] [FileSystem m]

def scan (s : StartupScan) (jar : Path) (a : Archive) (occasion : Occasion) :
    m (Except AnalysisError PluginReport) := do
  match ← s.analysis.analyze a occasion.analysed with
  | .error e => return .error e
  | .ok outcomes =>
    let enforcement ← Quarantine.enforce s.quarantine a outcomes occasion
    return .ok ⟨a.displayName, jar, outcomes, enforcement⟩

def examine (s : StartupScan) (p : Plugin) (occasion : Occasion) :
    m (Except AnalysisError Examined) := do
  if s.excludes p.jar then return .ok (.excluded p.jar)
  else
    match ← Archive.open_ p.jar with
    | .error e => return .ok (.unreadable p.jar e)
    | .ok a => return (← s.scan p.jar a occasion).map .scanned

def examineAll (s : StartupScan) :
    List (Plugin × Occasion) → m (Except AnalysisError (List Examined))
  | [] => return .ok []
  | (p, occasion) :: rest => do
    match ← s.examine p occasion with
    | .error e => return .error e
    | .ok x => return (← s.examineAll rest).map (x :: ·)

def run (s : StartupScan) (plugins : List (Plugin × Occasion)) :
    m (Except AnalysisError StartupReport) := do
  if s.analysis.isEnabled then
    let known := s.unreadable.map fun (path, reason) => s.examineUnreadable path reason
    return (← s.examineAll plugins).map fun es => .ofExamined (known ++ es)
  else return .ok .empty

end StartupScan

end PluginGuard

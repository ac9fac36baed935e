import PluginGuard.Text.Character

/-!
# Terminal text

Notes with their markers and tables with left-aligned columns. Colour codes take
no room on the screen, so widths count what is left without them.
-/
namespace PluginGuard.Terminal

inductive Style
  | red
  | green
  | yellow
  | cyan
  | bold
  deriving DecidableEq, Repr

def code (n : Nat) : String := "\x1b[" ++ toString n ++ "m"

def reset : String := code 0

def Style.code : Style → String
  | .red => Terminal.code 31
  | .green => Terminal.code 32
  | .yellow => Terminal.code 33
  | .cyan => Terminal.code 36
  | .bold => Terminal.code 1

def paint (colored : Bool) (style : Style) (text : String) : String :=
  if colored then style.code ++ text ++ reset else text

/-- Visible characters: each escape hides what follows up to the next m. The
flag says whether an escape is open. -/
def visibleFrom : Bool → List Char → List Char
  | _, [] => []
  | true, c :: cs => visibleFrom (c != 'm') cs
  | false, c :: cs => if c = '\x1b' then visibleFrom true cs else c :: visibleFrom false cs

def visible (text : String) : String := String.ofList (visibleFrom false text.toList)

def width (text : String) : Nat := (visibleFrom false text.toList).length

/-! ### Notes -/

inductive Note
  | info (text : String)
  | warning (text : String)
  | success (text : String)
  | error (text : String)
  deriving DecidableEq, Repr

def Note.line (colored : Bool) (n : Note) : String :=
  let marked := fun (style : Style) (sign word text : String) =>
    (if colored then style.code ++ Style.bold.code ++ sign ++ reset ++ " " else word ++ ": ") ++
      text ++ "\n"
  match n with
  | .info text => marked .cyan "i" "INFO" text
  | .warning text => marked .yellow "!" "WARN" text
  | .success text => marked .green "ok" "OK" text
  | .error text => marked .red "x" "ERROR" text

/-! ### Tables -/

def spaces (n : Nat) : String := String.ofList (List.replicate n ' ')

def padded (cell : String) (w : Nat) : String := cell ++ spaces (w - width cell)

def widths (headers : List String) (rows : List (List String)) : List Nat :=
  headers.zipIdx.map fun (h, i) =>
    rows.foldl (fun w row => max w ((row[i]?).map width |>.getD 0)) h.utf8ByteSize

def line (ws : List Nat) (cells : List String) : String :=
  "  " ++ Text.trimEnd ("  ".intercalate (List.zipWith padded cells ws)) ++ "\n"

def fitted (columns : Nat) (row : List String) : List String :=
  (List.range columns).map fun i => row.getD i ""

def table (headers : List String) (rows : List (List String)) : String :=
  let ws := widths headers rows
  String.join (line ws headers :: line ws (ws.map fun w => String.ofList (List.replicate w '-')) ::
    rows.map fun row => line ws (fitted headers.length row))

end PluginGuard.Terminal

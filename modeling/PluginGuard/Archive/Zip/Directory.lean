import PluginGuard.Archive.Zip.Extra

/-!
# The directory of a zip file

The record at the end of a zip file says how many entries there are and where
their directory starts. What has no room in it stands in a large end record, which
a locator right before it points at. A file may have other data in front of the
archive, so everything can lie behind its own count.

The directory lists the entries; each points at its own header, which stands
before the directory. Of two entries with one name the later one is kept, in the
place of the first. An end record whose directory cannot be read is passed over
for an earlier one.
-/
namespace PluginGuard.Zip

/-! ### End records -/

/-- How many entries there are, where their directory starts and how far
everything lies behind its own count. -/
structure Ending where
  count : Nat
  directory : Nat
  shift : Nat
  deriving DecidableEq, Repr

def firstAt? {α : Type} (m : Mark) (d : Data) (f : Nat → Option α) : (n first : Nat) → Option α
  | 0, _ => none
  | n + 1, first =>
    match if m.stands d first then f first else none with
    | some a => some a
    | none => firstAt? m d f n (first + 1)

/-- What the end record itself says. Where it counts entries, a header has to
stand at the directory's place or behind it. -/
def plainEnding? (d : Data) (place : Nat) : Option Ending := do
  let start := word d (place + 16)
  let directory ←
    if half d (place + 10) = 0 then some (max start place)
    else firstAt? .directoryHeader d some (place - start) start
  if half d (place + 4) ≠ half d (place + 6) then none
  return ⟨half d (place + 8), directory, directory - start⟩

def largeEndingAt? (d : Data) (locator place : Nat) : Option Ending := do
  let own := long d (locator + 8)
  let count := long d (place + 32)
  let start := long d (place + 48)
  if !Mark.largeEnding.fits d place || place + 12 + long d (place + 4) ≠ locator ||
      long d (place + 4) < 44 || word d (place + 20) ≠ word d (locator + 4) ||
      place < Mark.directoryHeader.size * count + start then none
  return ⟨count, start + (place - own), place - own⟩

def isReadable (d : Data) (place : Nat) : Bool :=
  long d (place + 24) ≤ long d (place + 32) && half d (place + 14) ≤ half d (place + 12) &&
    word d (place + 16) == word d (place + 20)

def largeEnding? (d : Data) (locator : Nat) : Option Ending := do
  let own := long d (locator + 8)
  if 1 < word d (locator + 16) then none
  let (place, e) ← firstAt? .largeEnding d
    (fun place => (largeEndingAt? d locator place).map fun e => (place, e)) (locator - own) own
  if isReadable d place then some e else none

def ending? (d : Data) (place : Nat) : Option Ending :=
  if !Mark.ending.fits d place || d.size < place + Mark.ending.size + half d (place + 20) then none
  else
    let full := half d (place + 10) == fullHalf || word d (place + 16) == fullWord
    let locator := place - Mark.largeLocator.size
    if full && Mark.largeLocator.size ≤ place && Mark.largeLocator.stands d locator then
      largeEnding? d locator
    else plainEnding? d place

/-! ### Headers -/

def header? (d : Data) (ending : Ending) (place : Nat) : Option (Entry × Nat) := do
  let nameEnd := place + Mark.directoryHeader.size + half d (place + 28)
  let extraEnd := nameEnd + half d (place + 30)
  let next := extraEnd + half d (place + 32)
  if !Mark.directoryHeader.fits d place || d.size < next then none
  let flags := half d (place + 8)
  let rawName := bytesAt d (place + Mark.directoryHeader.size) (half d (place + 28))
  let e ← Extra.applied? (bytesAt d nameEnd (half d (place + 30)))
    { name := textOf (flags.testBit 11) rawName
      rawName := rawName
      comment := textOf (flags.testBit 11) (bytesAt d extraEnd (half d (place + 32)))
      method := .ofNumber (half d (place + 10))
      encrypted := flags.testBit 0
      sealed := false
      crc := UInt32.ofNat (word d (place + 16))
      place := word d (place + 42)
      size := word d (place + 20)
      plainSize := word d (place + 24) }
  if e.method = .named && !e.sealed || ending.directory ≤ e.place + ending.shift then none
  return ({ e with place := e.place + ending.shift }, next)

def headers? (d : Data) (ending : Ending) : Nat → Nat → List Entry → Option (List Entry)
  | 0, _, acc => some acc.reverse
  | n + 1, place, acc =>
    match header? d ending place with
    | some (e, next) => headers? d ending n next (e :: acc)
    | none => none

/-- Puts an entry in the place of the one with its name, or at the end. -/
def keep (es : List Entry) (e : Entry) : List Entry :=
  if es.any (·.name == e.name) then es.map fun old => if old.name == e.name then e else old
  else es ++ [e]

def entriesAt? (d : Data) (place : Nat) : Option (List Entry) := do
  let ending ← ending? d place
  let es ← headers? d ending ending.count ending.directory []
  return es.foldl keep []

def lastEntries? (d : Data) : Nat → Option (List Entry)
  | 0 => entriesAt? d 0
  | n + 1 =>
    match entriesAt? d (n + 1) with
    | some es => some es
    | none => lastEntries? d n

def entries? (d : Data) : Option (List Entry) :=
  if d.size < Mark.ending.size then none else lastEntries? d (d.size - Mark.ending.size)

end PluginGuard.Zip

import PluginGuard.Archive.Inflate
import PluginGuard.Archive.Zip.Entry
import PluginGuard.Digest

/-!
# The content of entries

An entry's data follows its own header, stored as it is or compressed; the bytes
that it stands for have to have the checksum that the directory gives.
-/
namespace PluginGuard.Zip

inductive EntryError
  | encrypted
  | header
  | method
  | locked
  | corrupt
  | checksum
  | tooLarge (limit : Nat)
  deriving DecidableEq, Repr

def EntryError.message : EntryError → String
  | .encrypted => "unsupported Zip archive: Password required to decrypt file"
  | .header => "invalid Zip archive: Invalid local file header"
  | .method => "unsupported Zip archive: Compression method not supported"
  | .locked => "provided password is incorrect"
  | .corrupt => "corrupt deflate stream"
  | .checksum => "Invalid checksum"
  | .tooLarge limit => s!"larger than {limit} bytes"

def Entry.obstacle? (d : Data) (e : Entry) : Option EntryError :=
  if e.encrypted then some .encrypted
  else if !Mark.localHeader.fits d e.place then some .header
  else
    match e.method with
    | .other _ => some .method
    | _ => if e.sealed then some .locked else none

def Entry.start (d : Data) (e : Entry) : Nat :=
  e.place + Mark.localHeader.size + half d (e.place + 26) + half d (e.place + 28)

def Entry.raw? (d : Data) (limit : Nat) (e : Entry) : Option (List UInt8) :=
  let data := bytesAt d (e.start d) e.size
  if e.method = .deflated then Inflate.inflate limit data else some data

def Entry.read (d : Data) (limit : Nat) (e : Entry) : Except EntryError (List UInt8) :=
  match e.raw? d limit with
  | none => .error .corrupt
  | some bytes =>
    if limit < bytes.length then .error (.tooLarge limit)
    else if Digest.Crc32.checksum bytes = e.crc then .ok bytes
    else .error .checksum

end PluginGuard.Zip

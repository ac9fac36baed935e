import PluginGuard.ClassFile.Class
import PluginGuard.Proofs.ClassFile.Pool

/-!
# Classes and their bytes

A byte string parses to a class exactly if writing the class gives the string,
the pool of the class is sound and its own name resolves. In particular nothing
of a class file is lost by parsing it.
-/
namespace PluginGuard.ClassFile

open Reader

theorem Attribute.write_eq_ok {a : Attribute} {bs : List UInt8} :
    a.write = .ok bs ↔ a.info.length < 4294967296 ∧
      bs = Put.half a.name ++ Put.word (UInt32.ofNat a.info.length) ++ a.info := by
  unfold Attribute.write
  simp only
  split
  · simp [*, eq_comm]
  · simp [*]

theorem Attribute.exact_read : Exact (fun a bs => a.write = .ok bs) Attribute.read := by
  intro c a c'
  simp only [Attribute.read, bind_eq_ok, half_eq_ok, word_eq_ok, bytes_eq_ok, pure_eq_ok,
    Attribute.write_eq_ok]
  constructor
  · intro h
    rcases h with ⟨name, d, hd, length, e, he, info, e', ⟨hn, he'⟩, rfl, rfl⟩
    have hlt := length.toNat_lt
    refine ⟨_, ⟨by simpa [hn] using hlt, rfl⟩, ?_⟩
    rw [hn, UInt32.ofNat_toNat]
    exact (hd.trans he).trans he'
  · intro h
    rcases h with ⟨bs, ⟨hlt, rfl⟩, hp⟩
    obtain ⟨e, he, he'⟩ := Cursor.Past.append_iff.mp hp
    obtain ⟨d, hd, hde⟩ := Cursor.Past.append_iff.mp he
    exact ⟨_, d, hd, _, e, hde, _, c', ⟨(UInt32.toNat_ofNat_of_lt' hlt).symm, he'⟩, rfl, rfl⟩

theorem counted_write_eq_ok {α : Type} {write : α → Except Fault (List UInt8)} {as : List α}
    {what : String} {bs : List UInt8} :
    (do
      let count ← Put.count as.length what
      return count ++ (← as.mapM write).flatten : Except Fault (List UInt8)) = .ok bs ↔
    Counted (fun a bs => write a = .ok bs) as bs := by
  simp only [Fallible.bind_eq_ok, Fallible.pure_eq_ok, Put.count_eq_ok, Counted, Each.of_mapM]
  constructor
  · intro h
    rcases h with ⟨_, ⟨hlt, rfl⟩, parts, hparts, rfl⟩
    exact ⟨hlt, _, ⟨parts, hparts, rfl⟩, rfl⟩
  · intro h
    rcases h with ⟨hlt, _, ⟨parts, hparts, rfl⟩, rfl⟩
    exact ⟨_, ⟨hlt, rfl⟩, parts, hparts, rfl⟩

theorem writeAttributes_eq_ok {as : List Attribute} {bs : List UInt8} :
    writeAttributes as = .ok bs ↔ Counted (fun a bs => a.write = .ok bs) as bs :=
  counted_write_eq_ok

theorem writeMembers_eq_ok {ms : List Member} {bs : List UInt8} :
    writeMembers ms = .ok bs ↔ Counted (fun m bs => m.write = .ok bs) ms bs :=
  counted_write_eq_ok

theorem Member.write_eq_ok {m : Member} {bs : List UInt8} :
    m.write = .ok bs ↔ ∃ cs, Counted (fun a bs => a.write = .ok bs) m.attributes cs ∧
      bs = Put.half m.access ++ Put.half m.name ++ Put.half m.descriptor ++ cs := by
  simp only [Member.write, Fallible.bind_eq_ok, Fallible.pure_eq_ok, writeAttributes_eq_ok]

theorem Member.exact_read : Exact (fun m bs => m.write = .ok bs) Member.read := by
  intro c m c'
  simp only [Member.read, bind_eq_ok, half_eq_ok, pure_eq_ok, Member.write_eq_ok,
    Attribute.exact_read.counted _ _ _]
  constructor
  · intro h
    rcases h with ⟨access, d, hd, name, e, he, descriptor, f, hf, attributes, c'', ⟨cs, hcs, hc⟩,
      rfl, rfl⟩
    exact ⟨_, ⟨cs, hcs, rfl⟩, ((hd.trans he).trans hf).trans hc⟩
  · intro h
    rcases h with ⟨_, ⟨cs, hcs, rfl⟩, hp⟩
    obtain ⟨f, hf, hc⟩ := Cursor.Past.append_iff.mp hp
    obtain ⟨e, he, hef⟩ := Cursor.Past.append_iff.mp hf
    obtain ⟨d, hd, hde⟩ := Cursor.Past.append_iff.mp he
    exact ⟨_, d, hd, _, e, hde, _, f, hef, _, c', ⟨cs, hcs, hc⟩, rfl, rfl⟩

theorem Reader.exact_half : Exact (fun v bs => bs = Put.half v) half := by
  intro c v c'
  simp [half_eq_ok]

namespace ClassDef

theorem write_eq_ok {k : ClassDef} {bs : List UInt8} :
    k.write = .ok bs ↔ ∃ pool interfaces fields methods attributes,
      k.pool.write = .ok pool ∧ Counted (fun v bs => bs = Put.half v) k.interfaces interfaces ∧
      Counted (fun m bs => m.write = .ok bs) k.fields fields ∧
      Counted (fun m bs => m.write = .ok bs) k.methods methods ∧
      Counted (fun a bs => a.write = .ok bs) k.attributes attributes ∧
      bs = Put.word magic ++ Put.half k.minor ++ Put.half k.major ++ pool ++ Put.half k.access ++
        Put.half k.thisClass ++ Put.half k.superClass ++ interfaces ++ fields ++ methods ++
        attributes := by
  simp only [write, Fallible.bind_eq_ok, Fallible.pure_eq_ok, Put.count_eq_ok, writeMembers_eq_ok,
    writeAttributes_eq_ok]
  constructor
  · intro h
    rcases h with ⟨pool, hpool, _, ⟨hlt, rfl⟩, fields, hf, methods, hm, attributes, ha, rfl⟩
    exact ⟨pool, _, fields, methods, attributes, hpool, ⟨hlt, _, Each.of_fun.mpr rfl, rfl⟩,
      hf, hm, ha, by simp only [List.append_assoc]⟩
  · intro h
    rcases h with ⟨pool, _, fields, methods, attributes, hpool, ⟨hlt, cs, hcs, rfl⟩, hf, hm, ha,
      rfl⟩
    obtain rfl := Each.of_fun.mp hcs
    exact ⟨pool, hpool, _, ⟨hlt, rfl⟩, fields, hf, methods, hm, attributes, ha,
      by simp only [List.append_assoc]⟩

theorem read_eq_ok {k : ClassDef} {c c' : Cursor} :
    read c = .ok (k, c') ↔
      k.pool.Sound ∧ c'.rest = [] ∧ ∃ bs, k.write = .ok bs ∧ c.Past bs c' := by
  simp only [read, bind_eq_ok, word_eq_ok]
  constructor
  · intro h
    rcases h with ⟨found, c₁, h₁, h⟩
    split at h
    · cases h
    · next hmagic =>
      obtain rfl : found = magic := by simpa using hmagic
      simp only [bind_eq_ok, half_eq_ok, Pool.exact_read _ _ _, Reader.exact_half.counted _ _ _,
        Member.exact_read.counted _ _ _, Attribute.exact_read.counted _ _ _, get_eq_ok] at h
      obtain ⟨minor, c₂, h₂, major, c₃, h₃, pool, c₄, ⟨ps, ⟨sound, hps⟩, h₄⟩, access, c₅, h₅,
        this, c₆, h₆, super, c₇, h₇, interfaces, c₈, ⟨is, his, h₈⟩, fields, c₉, ⟨fs, hfs, h₉⟩,
        methods, c₁₀, ⟨ms, hms, h₁₀⟩, attributes, c₁₁, ⟨as, has, h₁₁⟩, _, _, ⟨rfl, rfl⟩, h⟩ := h
      split at h
      · next hend =>
        obtain ⟨rfl, rfl⟩ := pure_eq_ok.mp h
        refine ⟨sound, by simpa [Cursor.atEnd] using hend, _, write_eq_ok.mpr
          ⟨ps, is, fs, ms, as, hps, his, hfs, hms, has, rfl⟩, ?_⟩
        exact (((((((((h₁.trans h₂).trans h₃).trans h₄).trans h₅).trans h₆).trans h₇).trans
          h₈).trans h₉).trans h₁₀).trans h₁₁
      · cases h
  · intro h
    rcases h with ⟨sound, hend, bs, hw, hp⟩
    obtain ⟨ps, is, fs, ms, as, hps, his, hfs, hms, has, rfl⟩ := write_eq_ok.mp hw
    simp only [Cursor.Past.append_iff] at hp
    obtain ⟨c₁₀, ⟨c₉, ⟨c₈, ⟨c₇, ⟨c₆, ⟨c₅, ⟨c₄, ⟨c₃, ⟨c₂, ⟨c₁, h₁, h₂⟩, h₃⟩, h₄⟩, h₅⟩, h₆⟩,
      h₇⟩, h₈⟩, h₉⟩, h₁₀⟩, h₁₁⟩ := hp
    refine ⟨magic, c₁, h₁, ?_⟩
    simp only [bne_self_eq_false, Bool.false_eq_true, if_false, bind_eq_ok, half_eq_ok,
      Pool.exact_read _ _ _, Reader.exact_half.counted _ _ _, Member.exact_read.counted _ _ _,
      Attribute.exact_read.counted _ _ _, get_eq_ok]
    refine ⟨_, c₂, h₂, _, c₃, h₃, _, c₄, ⟨ps, ⟨sound, hps⟩, h₄⟩, _, c₅, h₅, _, c₆, h₆, _, c₇, h₇,
      _, c₈, ⟨is, his, h₈⟩, _, c₉, ⟨fs, hfs, h₉⟩, _, c₁₀, ⟨ms, hms, h₁₀⟩, _, c',
      ⟨as, has, h₁₁⟩, _, _, ⟨rfl, rfl⟩, ?_⟩
    rw [if_pos (by simp [Cursor.atEnd, hend])]
    exact pure_eq_ok.mpr ⟨rfl, rfl⟩

theorem parse_eq_ok {k : ClassDef} {bytes : List UInt8} :
    parse bytes = .ok k ↔ k.pool.Sound ∧ k.write = .ok bytes ∧ ∃ name, k.name = .ok name := by
  simp only [parse, Fallible.bind_eq_ok, Fallible.pure_eq_ok, runOn_eq_ok]
  constructor
  · intro h
    rcases h with ⟨k', ⟨c', hread⟩, name, hname, rfl⟩
    obtain ⟨sound, hend, bs, hw, hp⟩ := read_eq_ok.mp hread
    have hbs := hp.rest_eq
    rw [hend, List.append_nil] at hbs
    obtain rfl : bytes = bs := hbs
    exact ⟨sound, hw, name, hname⟩
  · intro h
    rcases h with ⟨sound, hw, name, hname⟩
    have hread : read (Cursor.start bytes) = .ok (k, ⟨0 + bytes.length, []⟩) :=
      read_eq_ok.mpr ⟨sound, rfl, bytes, hw, ⟨by simp [Cursor.start], rfl⟩⟩
    exact ⟨k, ⟨_, hread⟩, name, hname, rfl⟩

def specimen : ClassDef where
  minor := 0
  major := 52
  pool := ⟨#[none, some (.utf8 [0x41] "A"), some (.classRef 1), some (.long 7), none,
    some (.utf8 [0xFF] "\uFFFD"), some (.utf8 [0x43, 0x6F, 0x64, 0x65] "Code")]⟩
  access := 0x0021
  thisClass := 2
  superClass := 0
  interfaces := []
  fields := [⟨0x0002, 5, 1, []⟩]
  methods := [⟨0x0001, 5, 1, [⟨6, [0, 0, 0, 1, 0, 0, 0, 1, 0xB1, 0, 0, 0, 0]⟩]⟩]
  attributes := []

def specimenBytes : List UInt8 :=
  [0xCA, 0xFE, 0xBA, 0xBE, 0, 0, 0, 52, 0, 7, 1, 0, 1, 0x41, 7, 0, 1, 5, 0, 0, 0, 0, 0, 0, 0, 7,
    1, 0, 1, 0xFF, 1, 0, 4, 0x43, 0x6F, 0x64, 0x65, 0, 0x21, 0, 2, 0, 0, 0, 0, 0, 1, 0, 2, 0, 5,
    0, 1, 0, 0, 0, 1, 0, 1, 0, 5, 0, 1, 0, 1, 0, 6, 0, 0, 0, 13, 0, 0, 0, 1, 0, 0, 0, 1, 0xB1, 0,
    0, 0, 0, 0, 0]

theorem parse_specimen : parse specimenBytes = .ok specimen :=
  Fallible.eq_ok_of_toOption (by decide +kernel)

/-- Parsing loses nothing: the class that was parsed is written back byte for
byte. -/
theorem write_of_parse {k : ClassDef} {bytes : List UInt8} (h : parse bytes = .ok k) :
    k.write = .ok bytes :=
  (parse_eq_ok.mp h).2.1

theorem write_of_parse_specimen :
    parse specimenBytes = .ok specimen ∧ specimen.write = .ok specimenBytes :=
  ⟨parse_specimen, write_of_parse parse_specimen⟩

end ClassDef

end PluginGuard.ClassFile

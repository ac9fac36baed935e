import PluginGuard.Proofs.ClassFile.Code.RoundTrip
import PluginGuard.Proofs.ClassFile.ClassBytes
import PluginGuard.Proofs.ClassFile.Interning

/-!
# Reading edited bodies again

The pool is asked for the names of attributes only, so a body whose names
resolve is the same in every pool that grew from its own. The bytes of an edited
body can become so long that they do not say what they were written for; such
bytes are not read at all, and all others are read as the body they are for.
-/
namespace PluginGuard.ClassFile

open Reader

theorem Reader.Exact.unique {α : Type} {written : α → List UInt8 → Prop} {r : Reader α}
    (exact : Exact written r) {a b : α} {bs cs rest rest' : List UInt8} (ha : written a bs)
    (hb : written b cs) (h : bs ++ rest = cs ++ rest') : a = b ∧ bs = cs ∧ rest = rest' := by
  have hread := (exact ⟨0, bs ++ rest⟩ a ⟨0 + bs.length, rest⟩).mpr ⟨bs, ha, rfl, rfl⟩
  have hread' := (exact ⟨0, bs ++ rest⟩ b ⟨0 + cs.length, rest'⟩).mpr ⟨cs, hb, h, rfl⟩
  have hresult := Prod.mk.inj (Except.ok.inj (hread.symm.trans hread'))
  obtain ⟨-, hrest⟩ := Cursor.mk.inj hresult.2
  exact ⟨hresult.1, List.append_cancel_right (hrest ▸ h), hrest⟩

namespace CodeAttribute

variable {l : BodyLayout} {n : Nat} {pool : Pool} {a a' : CodeAttribute}

def RawFits : CodeAttribute → Prop
  | .raw _ info => info.length < 4294967296
  | _ => True

theorem Contents.append {info : List UInt8} (h : a.Contents l n info)
    (hraw : ∀ name kept, a ≠ .raw name kept) (more : List UInt8) :
    a.Contents l n (info ++ more) := by
  cases a with
  | lines name es =>
    obtain ⟨bs, rest, hbs, rfl⟩ := h
    exact ⟨bs, rest ++ more, hbs, List.append_assoc ..⟩
  | locals name vs =>
    obtain ⟨bs, rest, hbs, rfl⟩ := h
    exact ⟨bs, rest ++ more, hbs, List.append_assoc ..⟩
  | stackMap name fs =>
    obtain ⟨bs, rest, hbs, rfl⟩ := h
    exact ⟨bs, rest ++ more, hbs, List.append_assoc ..⟩
  | raw name kept => exact absurd rfl (hraw name kept)

theorem Named.raw_of_raw {name : UInt16} {kept : List UInt8} (h : (raw name kept).Named pool)
    (h' : a.Named pool) (hname : a.name = name) : ∃ kept, a = .raw name kept := by
  subst hname
  cases a with
  | lines name es => exact absurd h' (h _ (by decide))
  | locals name vs =>
    obtain h' | h' := h'
    · exact absurd h' (h _ (by decide))
    · exact absurd h' (h _ (by decide))
  | stackMap name fs => exact absurd h' (h _ (by decide))
  | raw name kept => exact ⟨kept, rfl⟩

theorem fits_of_contents (climbs : Climbs l.offset n) (small : l.offset n ≤ 65535)
    (within : a.Within n) (named : a.Named pool) (rawFits : a.RawFits)
    {info info' rest rest' : List UInt8} (hinfo : a.info l = .ok info) (named' : a'.Named pool)
    (hname : a'.name = a.name) (hcontents : a'.Contents l n info')
    (hlt : info'.length < 4294967296) (heq : info ++ rest = info' ++ rest') :
    info.length < 4294967296 := by
  refine Nat.lt_of_not_le fun hlong => ?_
  -- Contents that do not fit begin with those that were read, and as a table they say the same.
  obtain ⟨more, rfl⟩ : ∃ more, info = info' ++ more := by
    obtain ⟨more, hmore⟩ := List.prefix_of_prefix_length_le (heq ▸ List.prefix_append info' rest')
      (List.prefix_append info rest) (by omega)
    exact ⟨more, hmore.symm⟩
  by_cases hraw : ∃ name kept, a' = .raw name kept
  · obtain ⟨name, kept, rfl⟩ := hraw
    obtain ⟨kept', rfl⟩ := named'.raw_of_raw named hname.symm
    cases hinfo
    exact Nat.not_lt.mpr hlong rawFits
  · have hmore := hcontents.append (fun name kept heq => hraw ⟨name, kept, heq⟩) more
    have h := (ofInfo_eq_ok climbs small).mpr ⟨rfl, named, contents_of_info within hinfo⟩
    have h' := (ofInfo_eq_ok climbs small).mpr ⟨hname, named', hmore⟩
    obtain rfl : a = a' := Except.ok.inj (h.symm.trans h')
    obtain ⟨ws, hws, hle⟩ := hcontents.info
    cases hws.symm.trans hinfo
    rw [List.length_append] at hle hlong
    omega

theorem fits_of_spelled (climbs : Climbs l.offset n) (small : l.offset n ≤ 65535)
    {as as' : List CodeAttribute} {bs : List UInt8} (within : ∀ a ∈ as, a.Within n)
    (named : ∀ a ∈ as, a.Named pool) (rawFits : ∀ a ∈ as, a.RawFits)
    (h : Each (fun a bs => a.write l = .ok bs) as bs) (h' : Each (Spelled pool l n) as' bs) :
    ∀ a ∈ as, ∀ info, a.info l = .ok info → info.length < 4294967296 := by
  induction h generalizing as' with
  | nil => exact List.forall_mem_nil _
  | @cons a as cs ds ha _ ih =>
    obtain ⟨within, hwithin⟩ := List.forall_mem_cons.mp within
    obtain ⟨named, hnamed⟩ := List.forall_mem_cons.mp named
    obtain ⟨rawFits, hrawFits⟩ := List.forall_mem_cons.mp rawFits
    obtain ⟨info, hinfo, rfl⟩ := write_eq_ok.mp ha
    generalize hbytes : Put.half a.name ++ (Put.word (UInt32.ofNat info.length) ++ info) ++ ds =
      bytes at h'
    cases h' with
    | nil => cases hbytes
    | @cons a' as' cs' ds' ha' has' =>
      have hspelled := ha'
      obtain ⟨named', info', hlt, hcontents, rfl⟩ := ha'
      have hheads := hbytes
      simp only [List.append_assoc] at hheads
      obtain ⟨hname, -, hheads⟩ := exact_half.unique rfl rfl hheads
      obtain ⟨-, hcontents'⟩ := List.append_inj hheads rfl
      have hfits := fits_of_contents climbs small within named rawFits hinfo named' hname.symm
        hcontents hlt hcontents'
      have hown : Spelled pool l n a _ := ⟨named, info, hfits, contents_of_info within hinfo, rfl⟩
      obtain ⟨rfl, -, rfl⟩ := (exact_read climbs small pool).unique hown hspelled hbytes
      refine List.forall_mem_cons.mpr ⟨fun other hother => ?_, ih hwithin hnamed hrawFits has'⟩
      cases hother.symm.trans hinfo
      exact hfits

theorem named_of_extends {p p' : Pool} (h : p.Extends p')
    (hname : ∃ text, p.utf8 a.name = .ok text) : a.Named p' ↔ a.Named p := by
  obtain ⟨text, htext⟩ := hname
  have htext' := h.utf8 htext
  cases a with
  | _ => simp only [Named, name] at htext htext' ⊢; rw [htext, htext']

end CodeAttribute

namespace Code

variable {c c' : Code} {pool pool' : Pool} {info : List UInt8}

def NamesResolve (pool : Pool) (c : Code) : Prop :=
  ∀ a ∈ c.attributes, ∃ text, pool.utf8 a.name = .ok text

theorem NamesResolve.extend (h : c.NamesResolve pool) (hext : pool.Extends pool') :
    c.NamesResolve pool' :=
  fun a ha => (h a ha).imp fun _ => hext.utf8

theorem WellFormed.extend (wf : c.WellFormed pool) (names : c.NamesResolve pool)
    (hext : pool.Extends pool') : c.WellFormed pool' :=
  { wf with
    named := fun a ha =>
      (CodeAttribute.named_of_extends hext (names a ha)).mpr (wf.named a ha) }

theorem decode_of_named (h : decode info pool = .ok c) (named : ∀ a ∈ c.attributes, a.Named pool') :
    decode info pool' = .ok c := by
  obtain ⟨body, tail, placed, rfl, -, hspells⟩ := spells_of_decode h
  obtain ⟨-, -, -, cs, ds, hcs, ⟨hcount, bs, hbs, hds⟩, htail⟩ := (decode_assembled hspells).mp h
  refine (decode_assembled hspells).mpr ⟨rfl, rfl, rfl, cs, ds, hcs, ⟨hcount, bs, ?_, hds⟩, htail⟩
  exact hbs.mono fun a ha _ hspelled => ⟨named a ha, hspelled.2⟩

theorem decode_of_extends (hext : pool.Extends pool') (names : c.NamesResolve pool) :
    decode info pool' = .ok c ↔ decode info pool = .ok c := by
  have named (a : CodeAttribute) (ha : a ∈ c.attributes) :=
    CodeAttribute.named_of_extends hext (names a ha)
  constructor
  · intro h
    have wf := wellFormed_of_decode h
    exact decode_of_named h fun a ha => (named a ha).mp (wf.named a ha)
  · intro h
    have wf := wellFormed_of_decode h
    exact decode_of_named h fun a ha => (named a ha).mpr (wf.named a ha)

/-- What a later pool can read could be read before, with the same names of attributes: names that
did not resolve were no obstacle. -/
theorem exists_decode_of_extends (hext : pool.Extends pool') (h : decode info pool' = .ok c') :
    ∃ c, decode info pool = .ok c ∧
      c.attributes.map CodeAttribute.name = c'.attributes.map CodeAttribute.name := by
  obtain ⟨body, tail, placed, rfl, -, hspells⟩ := spells_of_decode h
  obtain ⟨-, -, -, cs, ds, hcs, ⟨hcount, bs, hbs, rfl⟩, htail⟩ := (decode_assembled hspells).mp h
  have earlier {l : BodyLayout} {n : Nat} {as : List CodeAttribute} {bs : List UInt8}
      (h : Each (CodeAttribute.Spelled pool' l n) as bs) :
      ∃ as', Each (CodeAttribute.Spelled pool l n) as' bs ∧
        as'.map CodeAttribute.name = as.map CodeAttribute.name := by
    induction h with
    | nil => exact ⟨[], .nil, rfl⟩
    | @cons a as bs cs ha _ ih =>
      obtain ⟨as', has', hnames⟩ := ih
      obtain ⟨hnamed, bytes, hlt, hcontents, rfl⟩ := ha
      cases hresolved : pool.utf8 a.name with
      | ok text =>
        have hown := (CodeAttribute.named_of_extends hext ⟨text, hresolved⟩).mp hnamed
        refine ⟨a :: as', .cons ⟨hown, bytes, hlt, hcontents, rfl⟩ has', ?_⟩
        rw [List.map_cons, hnames, List.map_cons]
      | error fault =>
        -- Under a name that says nothing the contents are kept as bytes.
        have hraw : (CodeAttribute.raw a.name bytes).Named pool := by
          intro known _ hknown
          rw [hresolved] at hknown
          cases hknown
        refine ⟨.raw a.name bytes :: as', .cons ⟨hraw, bytes, hlt, rfl, rfl⟩ has', ?_⟩
        rw [List.map_cons, hnames, List.map_cons]
        rfl
  obtain ⟨as', has', hnames⟩ := earlier hbs
  have hlength : as'.length = c'.attributes.length := by
    simpa using congrArg List.length hnames
  refine ⟨{ c' with attributes := as' }, (decode_assembled hspells).mpr ⟨rfl, rfl, rfl, cs, _, hcs,
    ⟨hlength ▸ hcount, bs, has', ?_⟩, htail⟩, hnames⟩
  rw [hlength]

theorem rawFits_of_decode (h : decode info pool = .ok c) : ∀ a ∈ c.attributes, a.RawFits := by
  obtain ⟨body, tail, placed, rfl, -, hspells⟩ := spells_of_decode h
  obtain ⟨-, -, -, cs, ds, -, ⟨-, bs, hbs, -⟩, -⟩ := (decode_assembled hspells).mp h
  intro a ha
  obtain ⟨_, -, kept, hlt, hcontents, -⟩ := hbs.exists_of_mem a ha
  cases a with
  | raw name info =>
    obtain rfl : kept = info := hcontents
    exact hlt
  | _ => trivial

theorem written_of_decode (wf : c.WellFormed pool) (rawFits : ∀ a ∈ c.attributes, a.RawFits)
    (hencode : c.encode = .ok info) (h : decode info pool = .ok c') :
    ∃ l, c.layout = .ok l ∧ c' = c.written l := by
  obtain ⟨l, body, tail, hl, hspells, hwritten, rfl⟩ := encode_parts wf hencode
  have hsize : (c.written l).instructions.length = c.size := size_written (settled_of_layout hl)
  have hsmall : l.offset c.size ≤ 65535 := by
    rw [← hsize, hspells.end_eq]
    exact hspells.small
  have climbs : Climbs l.offset c.size := hsize ▸ hspells.laid.climbs
  obtain ⟨-, -, -, hs, ds, hhandlers, ⟨-, bs, hbs, rfl⟩, htail⟩ := (decode_assembled hspells).mp h
  rw [hsize] at hhandlers hbs
  have hwritten' := hwritten
  obtain ⟨hcount, -, as, has, rfl⟩ := hwritten
  have hown : Counted (Handler.Spelled l c.size) c.handlers _ :=
    Counted.and_fun_iff.mpr ⟨hcount, wf.handlers, rfl⟩
  obtain ⟨-, -, hattributes⟩ :=
    (Handler.exact_read climbs hsmall).counted.unique hown hhandlers htail
  obtain ⟨-, rfl⟩ := List.append_inj hattributes rfl
  have fits : c.ContentsFit l :=
    CodeAttribute.fits_of_spelled climbs hsmall wf.attributes wf.named rawFits has hbs
  have hread := (decode_assembled (k := c.written l) hspells).mpr
    ⟨rfl, rfl, rfl, hsize.symm ▸ hwritten'.spelled wf fits⟩
  exact ⟨l, hl, Except.ok.inj (h.symm.trans hread)⟩

theorem exists_decode (wf : c.WellFormed pool) (hencode : c.encode = .ok info)
    (hlt : info.length < 4294967296) : ∃ l, decode info pool = .ok (c.written l) := by
  obtain ⟨l, _, _, hl, -⟩ := encode_eq_ok.mp hencode
  exact ⟨l, (decode_iff_contentsFit wf hl hencode).mpr (contentsFit_of_encode hl hencode hlt)⟩

end Code

end PluginGuard.ClassFile

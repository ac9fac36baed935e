import PluginGuard.Proofs.ClassFile.Naming
import PluginGuard.Proofs.ClassFile.Reading

/-!
# Pools that are asked for constants

A pool that is new or was read, and was then asked for constants any number of times. No request,
refused or not, takes a constant away or makes the pool too long to be written. An index that was
given names what was asked for, is given again whenever that is asked for again, and the pool gets
no constant twice.
-/
namespace PluginGuard.ClassFile

theorem Constant.write_ne_poolFull (k : Constant) : k.write ≠ .error .poolFull := by
  intro h
  cases k with
  | utf8 raw text =>
    obtain hbody | ⟨_, -, h⟩ := Fallible.bind_eq_error.mp h
    · obtain hcount | ⟨_, -, h⟩ := Fallible.bind_eq_error.mp hbody
      · rw [Put.count] at hcount
        split at hcount
        · cases hcount
        · cases hcount
      · cases h
    · cases h
  | _ => cases h

namespace Pool

variable {p p' : Pool} {k : Constant} {index : UInt16} {r : Request}

theorem write_ne_poolFull (hp : p.size < 65536) : p.write ≠ .error .poolFull := by
  intro h
  rw [write, if_pos hp] at h
  obtain hbodies | ⟨_, -, h⟩ := Fallible.bind_eq_error.mp h
  · obtain ⟨k, -, hk⟩ := Fallible.exists_of_mapM_eq_error hbodies
    exact k.write_ne_poolFull hk
  · cases h

/-! ### What every request keeps -/

def Interning.Keeps {α : Type} (inv : Pool → Prop) (m : Interning α) : Prop :=
  ∀ p, inv p → inv (m.run.run p).2

theorem Interning.Keeps.bind {α β : Type} {inv : Pool → Prop} {m : Interning α}
    {f : α → Interning β} (hm : m.Keeps inv) (hf : ∀ a, (f a).Keeps inv) : (m >>= f).Keeps inv := by
  intro p hp
  have h := hm p hp
  rw [ExceptT.run_bind, StateT.run_bind]
  generalize m.run.run p = x at h ⊢
  obtain ⟨answer, q⟩ := x
  cases answer with
  | ok a => exact hf a q h
  | error e => exact h

/-- Requests are made of steps that look for one constant and add it if it is not there. -/
theorem Request.keeps {inv : Pool → Prop} (step : ∀ k, (Pool.intern k).Keeps inv) (r : Request) :
    r.intern.Keeps inv := by
  have reference (text : String) (k : UInt16 → Constant) :
      (internUtf8 text >>= fun u => Pool.intern (k u)).Keeps inv :=
    (step _).bind fun u => step (k u)
  have names (name descriptor : String) : (internNameAndType name descriptor).Keeps inv :=
    (step _).bind fun n => reference descriptor (.nameAndType n)
  cases r with
  | utf8 text => exact step _
  | classRef name => exact reference name .classRef
  | string text => exact reference text .string
  | nameAndType name descriptor => exact names name descriptor
  | member kind m =>
    exact (reference m.owner .classRef).bind fun o =>
      (names m.name m.descriptor).bind fun nt => step (.member kind o nt)

theorem keeps_size (k : Constant) : (intern k).Keeps fun p => p.size ≤ 65535 := by
  intro p hp
  change (intern k p).2.size ≤ 65535
  rw [intern]
  split
  · exact hp
  · split
    · exact hp
    · next hroom =>
      rw [size_push]
      exact Nat.le_of_not_lt hroom

def Distinct (p : Pool) : Prop := p.slots.toList.Pairwise fun a b => a = b → a = none

instance (p : Pool) : Decidable p.Distinct :=
  inferInstanceAs (Decidable (List.Pairwise _ p.slots.toList))

theorem not_mem_of_find?_eq_none (h : p.find? k = none) : some k ∉ p.slots.toList := by
  intro hmem
  have hnone := Array.findIdx?_eq_none_iff.mp (Option.map_eq_none_iff.mp h) (some k)
    (Array.mem_toList_iff.mp hmem)
  simp at hnone

theorem Distinct.push (distinct : p.Distinct) (h : p.find? k = none) : (p.push k).Distinct := by
  have hnew := not_mem_of_find?_eq_none h
  have hfirst : (p.slots.toList ++ [some k]).Pairwise fun a b => a = b → a = none := by
    refine List.pairwise_append.mpr ⟨distinct, List.pairwise_singleton _ _, ?_⟩
    rintro a ha b hb rfl
    exact absurd (List.mem_singleton.mp hb ▸ ha) hnew
  rw [Distinct, Pool.push]
  cases k.isWide with
  | false => simpa using hfirst
  | true =>
    rw [if_pos rfl, Array.toList_push, Array.toList_push]
    refine List.pairwise_append.mpr ⟨hfirst, List.pairwise_singleton _ _, ?_⟩
    rintro a - b hb rfl
    exact List.mem_singleton.mp hb

theorem keeps_distinct (k : Constant) : (intern k).Keeps Distinct := by
  intro p hp
  change (intern k p).2.Distinct
  rw [intern]
  split
  · exact hp
  · next hnone =>
    split
    · exact hp
    · exact hp.push hnone

/-! ### What an index names -/

def Request.Known (r : Request) (p : Pool) (index : UInt16) : Prop :=
  match r with
  | .utf8 text => p.utf8 index = .ok text
  | .classRef name => p.className index = .ok name
  | .string text => p.string index = .ok text
  | .nameAndType name descriptor => p.nameAndType index = .ok (name, descriptor)
  | .member kind m => p.member index = .ok m ∧
      ∃ owner names, p.get? index = some (.member kind owner names)

theorem Request.Known.extend (hext : p.Extends p') (known : r.Known p index) :
    r.Known p' index := by
  cases r with
  | utf8 text => exact hext.utf8 known
  | classRef name => exact hext.className known
  | string text => exact hext.string known
  | nameAndType name descriptor => exact hext.nameAndType known
  | member kind m =>
    obtain ⟨hmember, owner, names, hget⟩ := known
    exact ⟨hext.member hmember, owner, names, hext.get? hget⟩

theorem Interning.Gives.bind {m : Interning UInt16} {f : UInt16 → Interning UInt16}
    {known known' : Pool → UInt16 → Prop} (hm : m.Gives known) (hf : ∀ a, (f a).Gives known') :
    (m >>= f).Gives known' := by
  intro p index p' hp h
  obtain ⟨a, q, hfirst, hrest⟩ := Fault.run_bind_eq_ok.mp h
  exact hf a q index p' (hm p a q hp hfirst).1 hrest

theorem Request.gives (r : Request) : r.intern.Gives r.Known := by
  cases r with
  | utf8 text => exact gives_internUtf8 text
  | classRef name => exact gives_internClass name
  | string text => exact gives_internString text
  | nameAndType name descriptor => exact gives_internNameAndType name descriptor
  | member kind m =>
    have kept (o nt : UInt16) : (Pool.intern (.member kind o nt)).Gives fun p index =>
        ∃ owner names, p.get? index = some (.member kind owner names) := by
      intro p index p' hp h
      obtain ⟨hp', hget⟩ := gives_intern _ p index p' hp h
      exact ⟨hp', o, nt, hget⟩
    have kind_ := (gives_internClass m.owner).bind fun o =>
      (gives_internNameAndType m.name m.descriptor).bind fun nt => kept o nt
    intro p index p' hp h
    obtain ⟨hp', hmember⟩ := gives_internMember kind m p index p' hp h
    exact ⟨hp', hmember, (kind_ p index p' hp h).2⟩

/-! ### Any number of requests -/

def afterAll (rs : List Request) (p : Pool) : Pool := rs.foldl (fun p r => r.after p) p

theorem extends_afterAll (rs : List Request) (p : Pool) : p.Extends (afterAll rs p) := by
  induction rs generalizing p with
  | nil => exact .refl p
  | cons r rs ih => exact (r.extends_after p).trans (ih (r.after p))

/-- A pool that is new or was read, and was then asked for constants. -/
inductive Grown : Pool → Prop
  | empty : Grown .empty
  | read {c c' : Cursor} {p : Pool} : Pool.read c = .ok (p, c') → Grown p
  | request {p : Pool} (r : Request) : Grown p → Grown (r.after p)

namespace Grown

theorem size_le (grown : Grown p) : p.size ≤ 65535 := by
  induction grown with
  | empty => decide
  | @read c c' p hread =>
    obtain ⟨_, ⟨-, hwrite⟩, -⟩ := (exact_read c p c').mp hread
    exact Nat.le_of_lt_succ (write_eq_ok.mp hwrite).1
  | request r _ ih => exact Request.keeps keeps_size r _ ih

/-- Whatever is asked for, and whether it is given or refused, constants keep their indices and the
pool stays short enough to be written. An index that is given names what was asked for then and
after any further requests, and is given again without a change. Where no constant stood twice, none
does afterwards. -/
theorem after_request (grown : Grown p) (r : Request) :
    (∀ index k, p.get? index = some k → (r.after p).get? index = some k) ∧
      (r.after p).size ≤ 65535 ∧ (r.after p).write ≠ .error .poolFull ∧
      (∀ index, (r.intern.run.run p).1 = .ok index → ∀ later : List Request,
        r.Known (afterAll later (r.after p)) index ∧
          r.intern.run.run (afterAll later (r.after p)) =
            (.ok index, afterAll later (r.after p))) ∧
      (p.Distinct → (r.after p).Distinct) := by
  have hsize := (grown.request r).size_le
  refine ⟨fun index k => (r.extends_after p).get?, hsize,
    write_ne_poolFull (Nat.lt_succ_of_le hsize), fun index hanswer later => ?_,
    Request.keeps keeps_distinct r p⟩
  have hrun : r.intern.run.run p = (.ok index, r.after p) := Prod.ext hanswer rfl
  have hext := extends_afterAll later (r.after p)
  obtain ⟨-, known⟩ := r.gives p index _ (Nat.lt_succ_of_le grown.size_le) hrun
  exact ⟨known.extend hext, r.settles p index _ hrun _ hext⟩

def crowded : Pool :=
  ⟨#[none, some (.utf8 [0xC1, 0x81] "A"), some (.long 7), none, some (.utf8 [0x41] "A")]⟩

def crowdedBytes : List UInt8 :=
  [0, 5, 1, 0, 2, 0xC1, 0x81, 5, 0, 0, 0, 0, 0, 0, 0, 7, 1, 0, 1, 0x41]

theorem grown_crowded : Grown crowded := by
  have hread : (Pool.read (.start crowdedBytes)).toOption.map Prod.fst = some crowded := by
    decide +kernel
  obtain ⟨⟨p, c'⟩, hread, rfl⟩ := Option.map_eq_some_iff.mp hread
  exact .read (Fault.toOption_eq_some_iff.mp hread)

theorem after_request_crowded :
    let r : Request := .member .interfaceMethod ⟨"A", "A", "()V"⟩
    Grown crowded ∧ crowded.Distinct ∧
      (r.intern.run.run crowded).1 = .ok 8 ∧ r.Known (r.after crowded) 8 ∧
      r.intern.run.run (r.after crowded) = (.ok 8, r.after crowded) ∧
      (r.after crowded).get? 1 = some (.utf8 [0xC1, 0x81] "A") ∧ (r.after crowded).Distinct := by
  intro r
  have distinct : crowded.Distinct := by decide
  have hanswer : (r.intern.run.run crowded).1 = .ok 8 :=
    Fallible.eq_ok_of_toOption (by decide +kernel)
  obtain ⟨keeps, -, -, names, stays⟩ := grown_crowded.after_request r
  obtain ⟨known, again⟩ := names 8 hanswer []
  exact ⟨grown_crowded, distinct, hanswer, known, again, keeps 1 _ rfl, stays distinct⟩

end Grown

end Pool

end PluginGuard.ClassFile

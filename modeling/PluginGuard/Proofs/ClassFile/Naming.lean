import PluginGuard.Proofs.ClassFile.Interning

/-!
# What interning names

The index that an interning step answers with names what was asked for, in the
pool that the step leaves and in every later one. A pool that has room for the
constants of a request never refuses it, and one that has the constants already
gives the same answer again and does not grow.
-/
namespace PluginGuard.ClassFile

theorem Fault.toOption_eq_some_iff {α : Type} {x : Except Fault α} {a : α} :
    x.toOption = some a ↔ x = .ok a :=
  ⟨Fallible.eq_ok_of_toOption, fun h => h ▸ rfl⟩

theorem Fault.run_bind_eq_ok {σ α β : Type} {m : ExceptT Fault (StateM σ) α}
    {f : α → ExceptT Fault (StateM σ) β} {s s' : σ} {b : β} :
    (m >>= f).run.run s = (.ok b, s') ↔
      ∃ a t, m.run.run s = (.ok a, t) ∧ (f a).run.run t = (.ok b, s') := by
  rw [ExceptT.run_bind, StateT.run_bind]
  generalize m.run.run s = x
  obtain ⟨r, t⟩ := x
  cases r with
  | ok a =>
    constructor
    · exact fun h => ⟨a, t, rfl, h⟩
    · rintro ⟨_, _, ⟨⟩, h⟩
      exact h
  | error e =>
    constructor
    · rintro ⟨⟩
    · rintro ⟨_, _, ⟨⟩, -⟩

theorem Fault.run_bind_eq_error {σ α β : Type} {m : ExceptT Fault (StateM σ) α}
    {f : α → ExceptT Fault (StateM σ) β} {s s' : σ} {e : Fault} :
    (m >>= f).run.run s = (.error e, s') ↔ m.run.run s = (.error e, s') ∨
      ∃ a t, m.run.run s = (.ok a, t) ∧ (f a).run.run t = (.error e, s') := by
  rw [ExceptT.run_bind, StateT.run_bind]
  generalize m.run.run s = x
  obtain ⟨r, t⟩ := x
  cases r with
  | ok a =>
    constructor
    · exact fun h => .inr ⟨a, t, rfl, h⟩
    · rintro (⟨⟨⟩⟩ | ⟨_, _, ⟨⟩, h⟩)
      exact h
  | error e =>
    constructor
    · rintro ⟨⟩
      exact .inl rfl
    · rintro (⟨⟨⟩⟩ | ⟨_, _, ⟨⟩, -⟩)
      rfl

theorem Fault.run_bind_of_eq_ok {σ α β : Type} {m : ExceptT Fault (StateM σ) α} {s t : σ} {a : α}
    (h : m.run.run s = (.ok a, t)) (f : α → ExceptT Fault (StateM σ) β) :
    (m >>= f).run.run s = (f a).run.run t := by
  rw [ExceptT.run_bind, StateT.run_bind, h]
  rfl

namespace Pool

/-! ### Members keep their names -/

namespace Extends

variable {p p' : Pool}

theorem string (h : p.Extends p') {index : UInt16} {text : String}
    (ht : p.string index = .ok text) : p'.string index = .ok text := by
  unfold Pool.string at ht
  split at ht
  · next utf8 hk =>
    rw [Pool.string, h.get? hk]
    exact h.utf8 ht
  · cases ht

theorem nameAndType (h : p.Extends p') {index : UInt16} {names : String × String}
    (hn : p.nameAndType index = .ok names) : p'.nameAndType index = .ok names := by
  unfold Pool.nameAndType at hn
  split at hn
  · next name descriptor hk =>
    obtain ⟨n, hname, hrest⟩ := Fallible.bind_eq_ok.mp hn
    obtain ⟨d, hdescriptor, hpure⟩ := Fallible.bind_eq_ok.mp hrest
    rw [Pool.nameAndType, h.get? hk]
    exact Fallible.bind_eq_ok.mpr ⟨n, h.utf8 hname,
      Fallible.bind_eq_ok.mpr ⟨d, h.utf8 hdescriptor, hpure⟩⟩
  · cases hn

theorem member (h : p.Extends p') {index : UInt16} {m : MemberRef}
    (hm : p.member index = .ok m) : p'.member index = .ok m := by
  unfold Pool.member at hm
  split at hm
  · next kind owner names hk =>
    obtain ⟨⟨n, d⟩, hnames, hrest⟩ := Fallible.bind_eq_ok.mp hm
    obtain ⟨o, howner, hpure⟩ := Fallible.bind_eq_ok.mp hrest
    rw [Pool.member, h.get? hk]
    exact Fallible.bind_eq_ok.mpr ⟨_, h.nameAndType hnames,
      Fallible.bind_eq_ok.mpr ⟨o, h.className howner, hpure⟩⟩
  · cases hm

end Extends

/-! ### The answer -/

/-- In a pool that indices of two bytes reach, the step answers with an index that
the pool afterwards knows as what was asked for. -/
def Interning.Gives (m : Interning UInt16) (known : Pool → UInt16 → Prop) : Prop :=
  ∀ p index p', p.size < 65536 → m.run.run p = (.ok index, p') → p'.size < 65536 ∧ known p' index

theorem size_push (p : Pool) (k : Constant) : (p.push k).size = p.size + k.slots := by
  cases hk : k.isWide with
  | _ => simp [push, size, Constant.slots, hk]

theorem get?_push (p : Pool) (k : Constant) (hp : p.size < 65536) :
    (p.push k).get? (UInt16.ofNat p.size) = some k := by
  have hindex : (UInt16.ofNat p.size).toNat = p.slots.toList.length :=
    UInt16.toNat_ofNat_of_lt hp
  rw [get?_eq_some, hindex]
  cases hk : k.isWide with
  | _ => simp [push, hk]

theorem gives_intern (k : Constant) :
    (intern k).Gives fun p index => p.get? index = some k := by
  intro p index p' hp h
  change intern k p = (.ok index, p') at h
  rw [intern, find?] at h
  cases hfound : p.slots.findIdx? (· == some k) with
  | some place =>
    rw [hfound] at h
    cases h
    obtain ⟨hlt, heq, -⟩ := Array.findIdx?_eq_some_iff_getElem.mp hfound
    have hindex : (UInt16.ofNat place).toNat = place :=
      UInt16.toNat_ofNat_of_lt (Nat.lt_trans hlt hp)
    refine ⟨hp, get?_eq_some.mpr ?_⟩
    rw [hindex]
    simpa [hlt] using heq
  | none =>
    rw [hfound] at h
    simp only [Option.map_none] at h
    split at h
    · cases h
    · next hroom =>
      cases h
      have hslots : 0 < k.slots := by
        rw [Constant.slots]
        split <;> decide
      exact ⟨by rw [size_push]; omega, get?_push p k (by omega)⟩

theorem gives_internUtf8 (text : String) :
    (internUtf8 text).Gives fun p index => p.utf8 index = .ok text := by
  intro p index p' hp h
  obtain ⟨hp', hget⟩ := gives_intern _ p index p' hp h
  refine ⟨hp', ?_⟩
  change p'.utf8 index = _
  rw [Pool.utf8, hget]
  rfl

theorem gives_reference (reference : UInt16 → Constant) (hdec : ∀ u, (reference u).Decoded)
    (text : String) : (internUtf8 text >>= fun u => intern (reference u)).Gives fun p index =>
      ∃ u, p.get? index = some (reference u) ∧ p.utf8 u = .ok text := by
  intro p index p' hp h
  obtain ⟨u, q, htext, hreference⟩ := Fault.run_bind_eq_ok.mp h
  obtain ⟨hq, hknown⟩ := gives_internUtf8 text p u q hp htext
  obtain ⟨hp', hget⟩ := gives_intern _ q index p' hq hreference
  have hext := adds_intern (hdec u) q
  rw [hreference] at hext
  exact ⟨hp', u, hget, hext.utf8 hknown⟩

theorem gives_internClass (name : String) :
    (internClass name).Gives fun p index => p.className index = .ok name := by
  intro p index p' hp h
  obtain ⟨hp', u, hget, hname⟩ := gives_reference .classRef (fun _ => trivial) name p index p' hp h
  refine ⟨hp', ?_⟩
  change p'.className index = _
  rw [Pool.className, hget]
  exact hname

theorem gives_internString (text : String) :
    (internString text).Gives fun p index => p.string index = .ok text := by
  intro p index p' hp h
  obtain ⟨hp', u, hget, htext⟩ := gives_reference .string (fun _ => trivial) text p index p' hp h
  refine ⟨hp', ?_⟩
  change p'.string index = _
  rw [Pool.string, hget]
  exact htext

theorem gives_internNameAndType (name descriptor : String) :
    (internNameAndType name descriptor).Gives fun p index =>
      p.nameAndType index = .ok (name, descriptor) := by
  intro p index p' hp h
  obtain ⟨n, q, hn, hrest⟩ := Fault.run_bind_eq_ok.mp h
  obtain ⟨d, q', hd, hpair⟩ := Fault.run_bind_eq_ok.mp hrest
  obtain ⟨hq, hname⟩ := gives_internUtf8 name p n q hp hn
  obtain ⟨hq', hdescriptor⟩ := gives_internUtf8 descriptor q d q' hq hd
  obtain ⟨hp', hget⟩ := gives_intern _ q' index p' hq' hpair
  have hext := adds_internUtf8 descriptor q
  have hext' := adds_intern (k := .nameAndType n d) trivial q'
  rw [hd] at hext
  rw [hpair] at hext'
  refine ⟨hp', ?_⟩
  change p'.nameAndType index = _
  rw [Pool.nameAndType, hget]
  exact Fallible.bind_eq_ok.mpr ⟨name, (hext.trans hext').utf8 hname,
    Fallible.bind_eq_ok.mpr ⟨descriptor, hext'.utf8 hdescriptor, rfl⟩⟩

theorem gives_internMember (kind : MemberKind) (m : MemberRef) :
    (internMember kind m).Gives fun p index => p.member index = .ok m := by
  intro p index p' hp h
  obtain ⟨o, q, ho, hrest⟩ := Fault.run_bind_eq_ok.mp h
  obtain ⟨nt, q', hnt, hmember⟩ := Fault.run_bind_eq_ok.mp hrest
  obtain ⟨hq, howner⟩ := gives_internClass m.owner p o q hp ho
  obtain ⟨hq', hnames⟩ := gives_internNameAndType m.name m.descriptor q nt q' hq hnt
  obtain ⟨hp', hget⟩ := gives_intern _ q' index p' hq' hmember
  have hext := adds_internNameAndType m.name m.descriptor q
  have hext' := adds_intern (k := .member kind o nt) trivial q'
  rw [hnt] at hext
  rw [hmember] at hext'
  refine ⟨hp', ?_⟩
  change p'.member index = _
  rw [Pool.member, hget]
  exact Fallible.bind_eq_ok.mpr ⟨_, hext'.nameAndType hnames,
    Fallible.bind_eq_ok.mpr ⟨m.owner, (hext.trans hext').className howner, rfl⟩⟩

/-! ### Room for the answer -/

/-- A pool with this many slots to spare does not refuse the step, which takes no more. -/
def Interning.Takes {α : Type} (m : Interning α) (slots : Nat) : Prop :=
  ∀ p : Pool, p.size + slots ≤ 65535 →
    ∃ a p', m.run.run p = (.ok a, p') ∧ p'.size ≤ p.size + slots

theorem Interning.Takes.bind {α β : Type} {m : Interning α} {f : α → Interning β} {n n' : Nat}
    (hm : m.Takes n) (hf : ∀ a, (f a).Takes n') : (m >>= f).Takes (n + n') := by
  intro p hroom
  obtain ⟨a, q, hrun, hq⟩ := hm p (by omega)
  obtain ⟨b, p', hrun', hp'⟩ := hf a q (by omega)
  exact ⟨b, p', Fault.run_bind_eq_ok.mpr ⟨a, q, hrun, hrun'⟩, by omega⟩

theorem takes_intern {k : Constant} (hk : k.isWide = false) : (intern k).Takes 1 := by
  intro p hroom
  have hslots : k.slots = 1 := by rw [Constant.slots, hk]; rfl
  change ∃ a p', intern k p = (.ok a, p') ∧ _
  rw [intern]
  split
  · exact ⟨_, _, rfl, Nat.le_add_right _ _⟩
  · rw [if_neg (by omega)]
    exact ⟨_, _, rfl, Nat.le_of_eq (by rw [size_push, hslots])⟩

theorem takes_internMember (kind : MemberKind) (m : MemberRef) :
    (internMember kind m).Takes 6 := by
  have text (s : String) : (internUtf8 s).Takes 1 := takes_intern rfl
  have owner : (internClass m.owner).Takes 2 := (text _).bind fun _ => takes_intern rfl
  have descriptor (name : UInt16) :
      (internUtf8 m.descriptor >>= fun d => intern (.nameAndType name d)).Takes 2 :=
    (text _).bind fun _ => takes_intern rfl
  have names : (internNameAndType m.name m.descriptor).Takes 3 := (text _).bind descriptor
  have both (o : UInt16) : (internNameAndType m.name m.descriptor >>= fun nt =>
      intern (.member kind o nt)).Takes 4 := names.bind fun _ => takes_intern rfl
  exact owner.bind both

/-! ### Asking again -/

/-- Once the step succeeded, it gives the same answer in every later pool and leaves that as it
is. -/
def Interning.Settles {α : Type} (m : Interning α) : Prop :=
  ∀ p a p', m.run.run p = (.ok a, p') → ∀ q, p'.Extends q → m.run.run q = (.ok a, q)

theorem Interning.Settles.bind {α β : Type} {m : Interning α} {f : α → Interning β}
    (hm : m.Settles) (hf : ∀ a, (f a).Settles) (adds : ∀ a, (f a).Adds) : (m >>= f).Settles := by
  intro p b p' hrun q hext
  obtain ⟨a, p₁, hfirst, hrest⟩ := Fault.run_bind_eq_ok.mp hrun
  have hadds := adds a p₁
  rw [hrest] at hadds
  exact Fault.run_bind_eq_ok.mpr
    ⟨a, q, hm p a p₁ hfirst q (hadds.trans hext), hf a p₁ b p' hrest q hext⟩

theorem find?_of_extends {p p' : Pool} (hext : p.Extends p') {k : Constant} {index : UInt16}
    (h : p.find? k = some index) : p'.find? k = some index := by
  obtain ⟨more, hmore, -⟩ := hext
  have hslots : p'.slots = p.slots ++ more.toArray := Array.toList_inj.mp (by simpa using hmore)
  obtain ⟨place, hplace, rfl⟩ := Option.map_eq_some_iff.mp h
  rw [find?, hslots, Array.findIdx?_append, hplace]
  rfl

theorem find?_push {p : Pool} {k : Constant} (h : p.find? k = none) :
    (p.push k).find? k = some (UInt16.ofNat p.size) := by
  have hnone : p.slots.findIdx? (· == some k) = none := Option.map_eq_none_iff.mp h
  have hpushed : (p.slots.push (some k)).findIdx? (· == some k) = some p.size := by
    rw [Array.findIdx?_push, hnone, if_pos (beq_self_eq_true _)]
    rfl
  rw [find?, push]
  cases k.isWide with
  | false => exact congrArg (Option.map UInt16.ofNat) hpushed
  | true =>
    simp only [if_true]
    rw [Array.findIdx?_push, hpushed]
    rfl

theorem settles_intern (k : Constant) : (intern k).Settles := by
  intro p index p' hrun q hext
  change intern k p = _ at hrun
  change intern k q = _
  have hfound : p'.find? k = some index := by
    rw [intern] at hrun
    split at hrun
    · next hfound =>
      cases hrun
      exact hfound
    · next hnone =>
      split at hrun
      · cases hrun
      · cases hrun
        exact find?_push hnone
  rw [intern, find?_of_extends hext hfound]

theorem settles_internNameAndType (name descriptor : String) :
    (internNameAndType name descriptor).Settles := by
  have second (n : UInt16) :
      (internUtf8 descriptor >>= fun d => intern (.nameAndType n d)).Settles :=
    (settles_intern _).bind (fun _ => settles_intern _) fun _ => adds_intern trivial
  exact (settles_intern _).bind second fun _ =>
    (adds_internUtf8 _).bind fun _ => adds_intern trivial

theorem settles_internMember (kind : MemberKind) (m : MemberRef) :
    (internMember kind m).Settles := by
  have owner : (internClass m.owner).Settles :=
    (settles_intern _).bind (fun _ => settles_intern _) fun _ => adds_intern trivial
  have both (o : UInt16) : (internNameAndType m.name m.descriptor >>= fun nt =>
      intern (.member kind o nt)).Settles :=
    (settles_internNameAndType m.name m.descriptor).bind (fun _ => settles_intern _) fun _ =>
      adds_intern trivial
  exact owner.bind both fun _ =>
    (adds_internNameAndType m.name m.descriptor).bind fun _ => adds_intern trivial

theorem Request.settles (r : Request) : r.intern.Settles := by
  cases r with
  | utf8 text => exact settles_intern _
  | classRef | string =>
    exact (settles_intern _).bind (fun _ => settles_intern _) fun _ => Pool.adds_intern trivial
  | nameAndType name descriptor => exact settles_internNameAndType name descriptor
  | member kind m => exact settles_internMember kind m

end Pool

end PluginGuard.ClassFile

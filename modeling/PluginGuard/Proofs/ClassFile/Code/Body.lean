import PluginGuard.Proofs.ClassFile.Code.Attributes
import PluginGuard.Proofs.ClassFile.Code.Sequence

/-!
# Bytes that stand for a body

A layout spells instructions in bytes when each of them stands at its offset,
with targets that are the offsets of instructions. Decoding is settled by that:
the instructions are the ones spelled, and handlers and attributes are read over
the same layout. In turn whatever decodes is spelled by some layout.
-/
namespace PluginGuard.ClassFile

open Reader

/-! ### Instructions at their places -/

namespace Instruction

def Laid (f : Nat → Nat) (length : Nat) : Nat → List Instruction → List UInt8 → Prop
  | _, [], bs => bs = []
  | k, i :: is, bs => ∃ cs ds, (i.mapTargets f).Spelled length (f k) cs ∧
    f (k + 1) = f k + cs.length ∧ Laid f length (k + 1) is ds ∧ bs = cs ++ ds

def laidOut (f : Nat → Nat) (k : Nat) (is : List Instruction) : List (Nat × Instruction) :=
  (is.zipIdx k).map fun (i, j) => (f j, i.mapTargets f)

variable {f : Nat → Nat} {length k : Nat} {is : List Instruction} {bs : List UInt8}

theorem Laid.end_eq (h : Laid f length k is bs) : f (k + is.length) = f k + bs.length := by
  induction is generalizing k bs with
  | nil =>
    obtain rfl : bs = [] := h
    rfl
  | cons i is ih =>
    obtain ⟨cs, ds, -, hnext, hds, rfl⟩ := h
    have hend := ih hds
    rw [Nat.add_right_comm] at hend
    rw [List.length_cons, List.length_append, ← Nat.add_assoc]
    omega

theorem Laid.climbs_from (h : Laid f length k is bs) :
    ∀ j < is.length, f (k + j) < f (k + j + 1) := by
  induction is generalizing k bs with
  | nil =>
    intro j hj
    exact absurd hj (Nat.not_lt_zero j)
  | cons i is ih =>
    obtain ⟨cs, ds, hcs, hnext, hds, rfl⟩ := h
    have hpos := hcs.length_pos
    intro j hj
    cases j with
    | zero =>
      rw [Nat.add_zero]
      omega
    | succ j =>
      have hlater := ih hds j (Nat.lt_of_succ_lt_succ hj)
      rwa [Nat.add_right_comm k 1 j] at hlater

theorem Laid.climbs (h : Laid f length 0 is bs) : Climbs f is.length := by
  intro j hj
  have hstep := h.climbs_from j hj
  rwa [Nat.zero_add] at hstep

theorem Laid.sequence (h : Laid f length k is bs) :
    Sequence length (f k) (laidOut f k is) bs := by
  induction is generalizing k bs with
  | nil =>
    obtain rfl : bs = [] := h
    exact .nil _
  | cons i is ih =>
    obtain ⟨cs, ds, hcs, hnext, hds, rfl⟩ := h
    have hrest := ih hds
    rw [hnext] at hrest
    exact .cons hcs hrest

theorem laid_of_sequence {pc : Nat} (h : Sequence length pc (laidOut f k is) bs)
    (hend : f (k + is.length) = pc + bs.length) : f k = pc ∧ Laid f length k is bs := by
  induction is generalizing k pc bs with
  | nil =>
    cases h
    exact ⟨hend, rfl⟩
  | cons i is ih =>
    cases h with
    | @cons _ _ _ cs ds hcs hrest =>
      have hend' : f (k + 1 + is.length) = f k + cs.length + ds.length := by
        rw [List.length_cons, List.length_append, ← Nat.add_assoc] at hend
        rw [Nat.add_right_comm, hend, Nat.add_assoc]
      obtain ⟨hnext, hlaid⟩ := ih hrest hend'
      exact ⟨rfl, cs, ds, hcs, hnext, hlaid, rfl⟩

theorem getElem?_laidOut {j : Nat} :
    (laidOut f k is)[j]? = is[j]?.map fun i => (f (k + j), i.mapTargets f) := by
  simp [laidOut, List.getElem?_zipIdx, Function.comp_def]

theorem length_laidOut : (laidOut f k is).length = is.length := by
  simp [laidOut]

theorem starts_laidOut : (laidOut f 0 is).map (·.1) = (List.range is.length).map f := by
  apply List.ext_getElem (by simp [laidOut])
  intro j hj hj'
  simp [laidOut]

end Instruction

structure BodyLayout.Spells (l : BodyLayout) (is : List Instruction) (body : List UInt8) :
    Prop where
  start : l.offset 0 = 0
  laid : Instruction.Laid l.offset body.length 0 is body
  within : ∀ i ∈ is, ∀ t ∈ i.targets, t < is.length
  nonempty : 0 < body.length
  small : body.length ≤ Code.maxLength

namespace BodyLayout.Spells

variable {l : BodyLayout} {is : List Instruction} {body : List UInt8}

theorem end_eq (h : l.Spells is body) : l.offset is.length = body.length := by
  have hend := h.laid.end_eq
  rwa [h.start, Nat.zero_add, Nat.zero_add] at hend

theorem toNat_length (h : l.Spells is body) :
    (UInt32.ofNat body.length).toNat = body.length := by
  have hsmall : body.length ≤ 65535 := h.small
  exact UInt32.toNat_ofNat_of_lt' (show body.length < 4294967296 by omega)

theorem readAll (h : l.Spells is body) :
    Instruction.readAll body = .ok (Instruction.laidOut l.offset 0 is) := by
  have hsequence := h.laid.sequence
  rw [h.start] at hsequence
  exact Instruction.readAll_eq_ok.mpr hsequence

theorem boundaries (h : l.Spells is body) :
    Boundaries.ofStarts ((Instruction.laidOut l.offset 0 is).map (·.1)) body.length =
      Boundaries.along l.offset is.length := by
  rw [Instruction.starts_laidOut, ← h.end_eq, Boundaries.along]

theorem relocate (h : l.Spells is body) :
    (Instruction.laidOut l.offset 0 is).mapM (fun (_, i) =>
      i.relocate (Boundaries.along l.offset is.length).startAt) = .ok is := by
  rw [Fallible.mapM_eq_ok]
  refine ⟨Instruction.length_laidOut.symm, ?_⟩
  intro k x i hx hi
  rw [Instruction.getElem?_laidOut, hi] at hx
  cases hx
  exact (Instruction.relocate_along_eq_ok h.laid.climbs).mpr
    ⟨h.within i (List.mem_of_getElem? hi), rfl⟩

end BodyLayout.Spells

/-! ### The layout of what was read -/

theorem Instruction.Sequence.le {length pc : Nat} {placed : List (Nat × Instruction)}
    {bs : List UInt8} (h : Sequence length pc placed bs) : ∀ x ∈ placed, pc ≤ x.1 := by
  induction h with
  | nil => exact List.forall_mem_nil _
  | cons _ _ ih =>
    refine List.forall_mem_cons.mpr ⟨Nat.le_refl _, fun x hx => ?_⟩
    have := ih x hx
    omega

theorem Instruction.Sequence.pairwise {length pc : Nat} {placed : List (Nat × Instruction)}
    {bs : List UInt8} (h : Sequence length pc placed bs) :
    (placed.map (·.1) ++ [pc + bs.length]).Pairwise (· < ·) := by
  induction h with
  | nil => simp
  | @cons pc i placed bs cs hi hrest ih =>
    have hpos := hi.length_pos
    rw [List.length_append, ← Nat.add_assoc]
    refine .cons (fun p hp => ?_) ih
    change pc < p
    rcases List.mem_append.mp hp with hp | hp
    · obtain ⟨x, hx, rfl⟩ := List.mem_map.mp hp
      have := hrest.le x hx
      omega
    · rw [List.mem_singleton.mp hp]
      omega

def BodyLayout.ofPlaced (placed : List (Nat × Instruction)) (length : Nat) : BodyLayout :=
  ⟨placed.map fun _ => false, (placed.map (·.1) ++ [length]).toArray⟩

namespace BodyLayout

variable {placed : List (Nat × Instruction)} {length : Nat}

theorem offset_ofPlaced {k : Nat} (hk : k < (placed.map (·.1) ++ [length]).length) :
    (ofPlaced placed length).offset k = (placed.map (·.1) ++ [length])[k] := by
  rw [offset, ofPlaced, Array.getD_eq_getD_getElem?, List.getElem?_toArray,
    List.getElem?_eq_getElem hk, Option.getD_some]

theorem offset_ofPlaced_of_getElem? {k : Nat} {x : Nat × Instruction} (h : placed[k]? = some x) :
    (ofPlaced placed length).offset k = x.1 := by
  obtain ⟨hk, rfl⟩ := List.getElem?_eq_some_iff.mp h
  rw [offset_ofPlaced (by simp; omega), List.getElem_append_left (by simpa using hk),
    List.getElem_map]

theorem offset_ofPlaced_length : (ofPlaced placed length).offset placed.length = length := by
  rw [offset_ofPlaced (by simp)]
  simp

theorem climbs_ofPlaced {bs : List UInt8} (h : Instruction.Sequence length 0 placed bs) :
    Climbs (ofPlaced placed bs.length).offset placed.length := by
  have hpairs := h.pairwise
  rw [Nat.zero_add, List.pairwise_iff_getElem] at hpairs
  intro k hk
  have hk₀ : k < (placed.map (·.1) ++ [bs.length]).length := by simp; omega
  have hk₁ : k + 1 < (placed.map (·.1) ++ [bs.length]).length := by simp; omega
  rw [offset_ofPlaced hk₀, offset_ofPlaced hk₁]
  exact hpairs k (k + 1) hk₀ hk₁ (Nat.lt_succ_self k)

theorem starts_ofPlaced :
    placed.map (·.1) = (List.range placed.length).map (ofPlaced placed length).offset := by
  apply List.ext_getElem (by simp)
  intro k hk hk'
  have hlt : k < placed.length := by simpa using hk
  rw [List.getElem_map, List.getElem_map, List.getElem_range,
    offset_ofPlaced_of_getElem? (List.getElem?_eq_getElem hlt)]

theorem spells_ofPlaced {body : List UInt8} {is : List Instruction}
    (hplaced : Instruction.readAll body = .ok placed) (nonempty : 0 < body.length)
    (small : body.length ≤ Code.maxLength)
    (his : placed.mapM (fun (_, i) => i.relocate
      (Boundaries.ofStarts (placed.map Prod.fst) body.length).startAt) = .ok is) :
    (ofPlaced placed body.length).Spells is body := by
  have hsequence := Instruction.readAll_eq_ok.mp hplaced
  have climbs := climbs_ofPlaced hsequence
  have hb : Boundaries.ofStarts (placed.map (·.1)) body.length =
      Boundaries.along (ofPlaced placed body.length).offset placed.length := by
    rw [Boundaries.along, offset_ofPlaced_length, ← starts_ofPlaced]
  rw [hb, Fallible.mapM_eq_ok] at his
  obtain ⟨hlength, hmoved⟩ := his
  have moved : ∀ k x i, placed[k]? = some x → is[k]? = some i →
      (∀ t ∈ i.targets, t < placed.length) ∧
        x = ((ofPlaced placed body.length).offset k,
          i.mapTargets (ofPlaced placed body.length).offset) := by
    intro k x i hx hi
    obtain ⟨hwithin, hraw⟩ :=
      (Instruction.relocate_along_eq_ok climbs).mp (hmoved k x i hx hi)
    exact ⟨hwithin, Prod.ext (offset_ofPlaced_of_getElem? hx).symm hraw⟩
  have hlaidOut : placed = Instruction.laidOut (ofPlaced placed body.length).offset 0 is := by
    apply List.ext_getElem?
    intro k
    rw [Instruction.getElem?_laidOut, Nat.zero_add]
    by_cases hk : k < placed.length
    · have hx : placed[k]? = some placed[k] := List.getElem?_eq_getElem hk
      have hi : is[k]? = some is[k] := List.getElem?_eq_getElem (hlength ▸ hk)
      rw [hx, hi, (moved k _ _ hx hi).2]
      rfl
    · rw [List.getElem?_eq_none (by omega), List.getElem?_eq_none (by omega)]
      rfl
  have hend : (ofPlaced placed body.length).offset (0 + is.length) = 0 + body.length := by
    rw [Nat.zero_add, Nat.zero_add, hlength, offset_ofPlaced_length]
  obtain ⟨hstart, hlaid⟩ := Instruction.laid_of_sequence (hlaidOut ▸ hsequence) hend
  refine ⟨hstart, hlaid, ?_, nonempty, small⟩
  intro i hi
  obtain ⟨k, hk, rfl⟩ := List.getElem_of_mem hi
  rw [hlength]
  exact (moved k _ _ (List.getElem?_eq_getElem (hlength ▸ hk)) (List.getElem?_eq_getElem hk)).1

end BodyLayout

/-! ### Decoding -/

namespace Code

def assembled (maxStack maxLocals : UInt16) (body tail : List UInt8) : List UInt8 :=
  Put.half maxStack ++ (Put.half maxLocals ++
    (Put.word (UInt32.ofNat body.length) ++ (body ++ tail)))

def TailSpelled (pool : Pool) (l : BodyLayout) (n : Nat) (handlers : List Handler)
    (attributes : List CodeAttribute) (tail : List UInt8) : Prop :=
  ∃ cs ds, Counted (Handler.Spelled l n) handlers cs ∧
    Counted (CodeAttribute.Spelled pool l n) attributes ds ∧ tail = cs ++ ds

theorem past_assembled (maxStack maxLocals : UInt16) (body tail : List UInt8) :
    ∃ c1 c2 c3 c4 c5,
      (Cursor.start (assembled maxStack maxLocals body tail)).Past (Put.half maxStack) c1 ∧
      c1.Past (Put.half maxLocals) c2 ∧ c2.Past (Put.word (UInt32.ofNat body.length)) c3 ∧
      c3.Past body c4 ∧ c4.Past tail c5 ∧ c5.rest = [] := by
  obtain ⟨c5, hend, hp⟩ : ∃ c5 : Cursor, c5.rest = [] ∧
      (Cursor.start (assembled maxStack maxLocals body tail)).Past
        (assembled maxStack maxLocals body tail) c5 :=
    ⟨⟨_, []⟩, rfl, (List.append_nil _).symm, rfl⟩
  obtain ⟨c1, h1, hp⟩ := Cursor.Past.append_iff.mp hp
  obtain ⟨c2, h2, hp⟩ := Cursor.Past.append_iff.mp hp
  obtain ⟨c3, h3, hp⟩ := Cursor.Past.append_iff.mp hp
  obtain ⟨c4, h4, h5⟩ := Cursor.Past.append_iff.mp hp
  exact ⟨c1, c2, c3, c4, c5, h1, h2, h3, h4, h5, hend⟩

theorem decode_assembled {pool : Pool} {l : BodyLayout} {is : List Instruction}
    {maxStack maxLocals : UInt16} {body tail : List UInt8} {k : Code} (h : l.Spells is body) :
    decode (assembled maxStack maxLocals body tail) pool = .ok k ↔
      k.maxStack = maxStack ∧ k.maxLocals = maxLocals ∧ k.instructions = is ∧
        TailSpelled pool l is.length k.handlers k.attributes tail := by
  have hsmall : l.offset is.length ≤ 65535 := h.end_eq ▸ h.small
  have hbounds : ¬(body.length = 0 ∨ maxLength < body.length) := by
    have := h.nonempty
    have := h.small
    omega
  obtain ⟨c1, c2, c3, c4, c5, h1, h2, h3, h4, h5, hend⟩ :=
    past_assembled maxStack maxLocals body tail
  rw [decode, runOn_eq_ok]
  simp only [read]
  rw [bind_of_eq_ok (half_eq_ok.mpr h1), bind_of_eq_ok (half_eq_ok.mpr h2),
    bind_of_eq_ok (word_eq_ok.mpr h3)]
  simp only [h.toNat_length, if_neg hbounds]
  rw [bind_of_eq_ok (bytes_eq_ok.mpr ⟨rfl, h4⟩), bind_of_eq_ok (lift_eq_ok.mpr ⟨h.readAll, rfl⟩),
    h.boundaries, bind_of_eq_ok (lift_eq_ok.mpr ⟨h.relocate, rfl⟩)]
  simp only [bind_eq_ok, (Handler.exact_read h.laid.climbs hsmall).counted _ _ _,
    (CodeAttribute.exact_read h.laid.climbs hsmall pool).counted _ _ _, get_eq_ok]
  constructor
  · intro hread
    rcases hread with ⟨_, handlers, d, ⟨cs, hcs, hd⟩, attributes, e, ⟨ds, hds, he⟩, _, _,
      ⟨rfl, rfl⟩, hk⟩
    split at hk
    · next hdone =>
      obtain ⟨rfl, rfl⟩ := pure_eq_ok.mp hk
      refine ⟨rfl, rfl, rfl, cs, ds, hcs, hds, ?_⟩
      have hrest := h5.rest_eq.symm.trans (hd.trans he).rest_eq
      rwa [hend, List.isEmpty_iff.mp hdone, List.append_nil, List.append_nil] at hrest
    · cases hk
  · obtain ⟨_, _, _, handlers, attributes⟩ := k
    intro hspelled
    rcases hspelled with ⟨rfl, rfl, rfl, cs, ds, hcs, hds, rfl⟩
    obtain ⟨d, hd, he⟩ := Cursor.Past.append_iff.mp h5
    have hdone : c5.atEnd = true := List.isEmpty_iff.mpr hend
    refine ⟨c5, handlers, d, ⟨cs, hcs, hd⟩, attributes, c5, ⟨ds, hds, he⟩, c5, c5,
      ⟨rfl, rfl⟩, ?_⟩
    rw [if_pos hdone]
    rfl

theorem spells_of_decode {pool : Pool} {info : List UInt8} {k : Code}
    (h : decode info pool = .ok k) :
    ∃ body tail placed, info = assembled k.maxStack k.maxLocals body tail ∧
      Instruction.readAll body = .ok placed ∧
      (BodyLayout.ofPlaced placed body.length).Spells k.instructions body := by
  obtain ⟨c', h⟩ := runOn_eq_ok.mp h
  simp only [read, bind_eq_ok, half_eq_ok, word_eq_ok] at h
  obtain ⟨maxStack, c1, h1, maxLocals, c2, h2, length, c3, h3, h⟩ := h
  split at h
  · cases h
  · next hbounds =>
    simp only [bind_eq_ok, bytes_eq_ok, lift_eq_ok] at h
    obtain ⟨body, _, ⟨hlength, h4⟩, placed, _, ⟨hplaced, rfl⟩, is, c4, ⟨his, rfl⟩,
      handlers, c5, -, attributes, c6, -, _, _, -, h⟩ := h
    split at h
    · obtain ⟨rfl, -⟩ := pure_eq_ok.mp h
      refine ⟨body, c4.rest, placed, ?_, hplaced, ?_⟩
      · have hp := ((h1.trans h2).trans h3).trans h4
        rw [assembled, hlength, UInt32.ofNat_toNat]
        simpa [Cursor.start] using hp.rest_eq
      · rw [← hlength] at his hbounds
        exact BodyLayout.spells_ofPlaced hplaced (by omega) (by omega) his
    · cases h

end Code

end PluginGuard.ClassFile

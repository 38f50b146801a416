import Mathlib

/-! Files of bytes with writes and reads at a position. Values of eight bytes are opaque words. -/

namespace ByteFile

/-- The bytes below `size` count; a write beyond the end extends the file. -/
structure File where
  size : ℕ
  get : ℕ → UInt8

/-- The bytes of a word in the order of the memory. -/
abbrev Word := Fin 8 → UInt8

def Word.byteswap (w : Word) : Word := fun i => w i.rev

@[simp] theorem Word.byteswap_byteswap (w : Word) : w.byteswap.byteswap = w := by
  funext i
  simp [byteswap]

namespace File

variable (f : File)

def empty : File := ⟨0, fun _ => 0⟩

def write (off : ℕ) (bs : List UInt8) : File where
  size := max f.size (off + bs.length)
  get := fun i => if off ≤ i ∧ i < off + bs.length then bs.getD (i - off) 0 else f.get i

/-- Store an array of words that is mapped to the file. -/
def writeWords (off count : ℕ) (ws : ℕ → Word) : File where
  size := max f.size (off + 8 * count)
  get := fun i => if off ≤ i ∧ i < off + 8 * count then
      ws ((i - off) / 8) ⟨(i - off) % 8, Nat.mod_lt _ (by decide)⟩ else f.get i

def bytesAt (off n : ℕ) : List UInt8 := (List.range n).map fun i => f.get (off + i)

def read (off n : ℕ) : Option (List UInt8) := if off + n ≤ f.size then some (f.bytesAt off n) else none

def wordAt (off : ℕ) : Word := fun i => f.get (off + i)

/-- The files have the same bytes below `n`. -/
def AgreeBelow (g : File) (n : ℕ) : Prop := ∀ i < n, f.get i = g.get i

variable {f} {g : File} {n off k count : ℕ} {bs : List UInt8} {ws : ℕ → Word}

theorem AgreeBelow.trans {h : File} (hfg : f.AgreeBelow g n) (hgh : g.AgreeBelow h n) : f.AgreeBelow h n := by
  intro i hi
  rw [hfg i hi, hgh i hi]

theorem AgreeBelow.mono (h : f.AgreeBelow g n) (hk : k ≤ n) : f.AgreeBelow g k := fun i hi => h i (by omega)

theorem AgreeBelow.bytesAt_eq (h : f.AgreeBelow g n) (hle : off + k ≤ n) : f.bytesAt off k = g.bytesAt off k := by
  unfold bytesAt
  apply List.map_congr_left
  intro i hi
  rw [List.mem_range] at hi
  exact h _ (by omega)

theorem AgreeBelow.wordAt_eq (h : f.AgreeBelow g n) (hle : off + 8 ≤ n) : f.wordAt off = g.wordAt off := by
  funext i
  exact h _ (by have := i.isLt; omega)

theorem write_agreeBelow (f : File) (off : ℕ) (bs : List UInt8) : (f.write off bs).AgreeBelow f off := by
  intro i hi
  show (if off ≤ i ∧ i < off + bs.length then bs.getD (i - off) 0 else f.get i) = f.get i
  rw [if_neg (by omega)]

theorem writeWords_agreeBelow (f : File) (off count : ℕ) (ws : ℕ → Word) :
    (f.writeWords off count ws).AgreeBelow f off := by
  intro i hi
  show (if off ≤ i ∧ i < off + 8 * count then _ else f.get i) = f.get i
  rw [if_neg (by omega)]

theorem bytesAt_write {as cs : List UInt8} :
    (f.write off (as ++ bs ++ cs)).bytesAt (off + as.length) bs.length = bs := by
  apply List.ext_getElem
  · simp [bytesAt]
  · intro i hi hi'
    have hin : off ≤ off + as.length + i ∧ off + as.length + i < off + (as ++ bs ++ cs).length := by
      simp only [List.length_append]
      omega
    simp only [bytesAt, write, List.getElem_map, List.getElem_range, if_pos hin]
    rw [show off + as.length + i - off = as.length + i by omega, List.getD_eq_getElem _ _ (by simp; omega),
      List.getElem_append_left (by simp; omega), List.getElem_append_right (by omega)]
    simp

theorem wordAt_writeWords (hk : k < count) : (f.writeWords off count ws).wordAt (off + 8 * k) = ws k := by
  funext i
  have hlt := i.isLt
  have hin : off ≤ off + 8 * k + i ∧ off + 8 * k + i < off + 8 * count := by omega
  have hq : (off + 8 * k + i - off) / 8 = k := by omega
  have hr : (off + 8 * k + i - off) % 8 = i := by omega
  show (if off ≤ off + 8 * k + i ∧ off + 8 * k + i < off + 8 * count then
    ws ((off + 8 * k + i - off) / 8) ⟨(off + 8 * k + i - off) % 8, _⟩ else _) = ws k i
  rw [if_pos hin, hq]
  congr 1
  exact Fin.ext hr

end File

/-! ## Numbers of four bytes, the most significant one first -/

def beBytes (n : ℕ) : List UInt8 :=
  [UInt8.ofNat (n / 2 ^ 24), UInt8.ofNat (n / 2 ^ 16), UInt8.ofNat (n / 2 ^ 8), UInt8.ofNat n]

def beValue (bs : List UInt8) : ℕ := bs.foldl (fun n b => n * 2 ^ 8 + b.toNat) 0

/-- A signed number in two's complement, if it fits. -/
def packInt (v : ℤ) : Option (List UInt8) :=
  if -2 ^ 31 ≤ v ∧ v < 2 ^ 31 then some (beBytes (v % 2 ^ 32).toNat) else none

def unpackInt (bs : List UInt8) : ℤ :=
  if beValue bs < 2 ^ 31 then beValue bs else (beValue bs : ℤ) - 2 ^ 32

theorem beValue_beBytes {n : ℕ} (h : n < 2 ^ 32) : beValue (beBytes n) = n := by
  simp only [beValue, beBytes, List.foldl_cons, List.foldl_nil, UInt8.toNat_ofNat']
  omega

theorem packInt_eq {v : ℤ} (h : -2 ^ 31 ≤ v ∧ v < 2 ^ 31) : packInt v = some (beBytes (v % 2 ^ 32).toNat) := if_pos h

theorem unpackInt_beBytes {v : ℤ} (h : -2 ^ 31 ≤ v ∧ v < 2 ^ 31) : unpackInt (beBytes (v % 2 ^ 32).toNat) = v := by
  unfold unpackInt
  rw [beValue_beBytes (by omega)]
  split_ifs <;> omega

end ByteFile

/-! Files that are filled by writes at positions, in any order, and programs that read a file from its start. -/

namespace ByteFile

/-! ## Writes in any order -/

/-- One write after the other, each at its position. -/
def File.writeAll (f : File) (ws : List (ℕ × List UInt8)) : File := ws.foldl (fun f w => f.write w.1 w.2) f

/-- Chunks that are written one behind the other from a position on. -/
def placed : ℕ → List (List UInt8) → List (ℕ × List UInt8)
  | _, [] => []
  | off, c :: cs => (off, c) :: placed (off + c.length) cs

/-- Two writes that do not touch the same byte. -/
def Apart (v w : ℕ × List UInt8) : Prop := v.1 + v.2.length ≤ w.1 ∨ w.1 + w.2.length ≤ v.1

def Covers (w : ℕ × List UInt8) (i : ℕ) : Prop := w.1 ≤ i ∧ i < w.1 + w.2.length

section Writes

variable {f : File} {ws : List (ℕ × List UInt8)} {v w : ℕ × List UInt8} {i n off : ℕ} {cs ds : List (List UInt8)}

theorem Apart.symm (h : Apart v w) : Apart w v := Or.symm h

theorem writeAll_cons (f : File) (w : ℕ × List UInt8) (ws : List (ℕ × List UInt8)) :
    f.writeAll (w :: ws) = (f.write w.1 w.2).writeAll ws := rfl

theorem writeAll_get_of_not_covers (h : ∀ w ∈ ws, ¬ Covers w i) : (f.writeAll ws).get i = f.get i := by
  induction ws generalizing f with
  | nil => rfl
  | cons w ws ih =>
    rw [writeAll_cons, ih fun v hv => h v (List.mem_cons_of_mem w hv)]
    exact if_neg (h w List.mem_cons_self)

/-- A byte is what the one write that covers it puts there. -/
theorem writeAll_get (hap : ws.Pairwise Apart) (hw : w ∈ ws) (hi : Covers w i) :
    (f.writeAll ws).get i = w.2.getD (i - w.1) 0 := by
  induction ws generalizing f with
  | nil => exact absurd hw List.not_mem_nil
  | cons v ws ih =>
    obtain ⟨hhead, htail⟩ := List.pairwise_cons.mp hap
    rw [writeAll_cons]
    rcases List.mem_cons.mp hw with rfl | hw
    · rw [writeAll_get_of_not_covers]
      · exact if_pos hi
      · intro v hv hvi
        have := hhead v hv
        unfold Apart at this
        unfold Covers at hi hvi
        omega
    · exact ih htail hw

theorem writeAll_size_le (hf : f.size ≤ n) (h : ∀ w ∈ ws, w.1 + w.2.length ≤ n) : (f.writeAll ws).size ≤ n := by
  induction ws generalizing f with
  | nil => exact hf
  | cons w ws ih =>
    rw [writeAll_cons]
    apply ih
    · exact max_le hf (h w List.mem_cons_self)
    · exact fun v hv => h v (List.mem_cons_of_mem w hv)

theorem le_writeAll_size_start (f : File) (ws : List (ℕ × List UInt8)) : f.size ≤ (f.writeAll ws).size := by
  induction ws generalizing f with
  | nil => exact le_rfl
  | cons w ws ih => exact (le_max_left _ _).trans (ih (f.write w.1 w.2))

theorem le_writeAll_size (hw : w ∈ ws) : w.1 + w.2.length ≤ (f.writeAll ws).size := by
  induction ws generalizing f with
  | nil => exact absurd hw List.not_mem_nil
  | cons v ws ih =>
    rw [writeAll_cons]
    rcases List.mem_cons.mp hw with rfl | hw
    · have hwrite : w.1 + w.2.length ≤ (f.write w.1 w.2).size := le_max_right _ _
      exact hwrite.trans (le_writeAll_size_start _ _)
    · exact ih hw

theorem placed_append (off : ℕ) (cs ds : List (List UInt8)) :
    placed off (cs ++ ds) = placed off cs ++ placed (off + cs.flatten.length) ds := by
  induction cs generalizing off with
  | nil => rfl
  | cons c cs ih =>
    rw [List.cons_append, placed, ih, placed, List.flatten_cons, List.length_append, add_assoc]
    rfl

theorem le_of_mem_placed (hw : w ∈ placed off cs) : off ≤ w.1 ∧ w.1 + w.2.length ≤ off + cs.flatten.length := by
  induction cs generalizing off with
  | nil => exact absurd hw List.not_mem_nil
  | cons c cs ih =>
    rw [List.flatten_cons, List.length_append]
    rcases List.mem_cons.mp hw with rfl | hw
    · dsimp only
      omega
    · have := ih hw
      omega

theorem placed_apart (off : ℕ) (cs : List (List UInt8)) : (placed off cs).Pairwise Apart := by
  induction cs generalizing off with
  | nil => exact List.Pairwise.nil
  | cons c cs ih =>
    refine List.pairwise_cons.mpr ⟨?_, ih _⟩
    intro w hw
    exact Or.inl (le_of_mem_placed hw).1

theorem exists_covers_placed (off : ℕ) (hi : i < cs.flatten.length) : ∃ w ∈ placed off cs, Covers w (off + i) ∧
    w.2.getD (off + i - w.1) 0 = cs.flatten.getD i 0 := by
  induction cs generalizing off i with
  | nil => exact absurd hi (Nat.not_lt_zero i)
  | cons c cs ih =>
    rw [List.flatten_cons, List.length_append] at hi
    rw [List.flatten_cons]
    by_cases hic : i < c.length
    · refine ⟨(off, c), List.mem_cons_self, ⟨Nat.le_add_right _ _, Nat.add_lt_add_left hic off⟩, ?_⟩
      rw [List.getD_append _ _ _ _ hic, Nat.add_sub_cancel_left]
    · obtain ⟨w, hw, hcov, hget⟩ := @ih (i - c.length) (off + c.length) (by omega)
      have hpos : off + c.length + (i - c.length) = off + i := by omega
      rw [hpos] at hcov hget
      refine ⟨w, List.mem_cons_of_mem _ hw, hcov, ?_⟩
      rw [hget, List.getD_append_right _ _ _ _ (not_lt.mp hic)]

/-- Writes that lie one behind the other from the start make their concatenation, in whatever order they come. -/
theorem writeAll_placed (hp : ws.Perm (placed 0 cs)) : (File.empty.writeAll ws).size = cs.flatten.length ∧
    (File.empty.writeAll ws).bytesAt 0 cs.flatten.length = cs.flatten := by
  have hap : ws.Pairwise Apart := (hp.pairwise_iff Apart.symm).mpr (placed_apart 0 cs)
  constructor
  · apply le_antisymm
    · apply writeAll_size_le (Nat.zero_le _)
      intro w hw
      have := (le_of_mem_placed (hp.mem_iff.mp hw)).2
      rwa [zero_add] at this
    · -- the last byte is covered
      rcases Nat.eq_zero_or_pos cs.flatten.length with hzero | hpos
      · rw [hzero]
        exact Nat.zero_le _
      · have hlast : cs.flatten.length - 1 < cs.flatten.length := by omega
        obtain ⟨w, hw, hcov, -⟩ := exists_covers_placed 0 hlast
        have hle := le_writeAll_size (f := File.empty) (hp.mem_iff.mpr hw)
        have := hcov.2
        omega
  · apply List.ext_getElem
    · simp [File.bytesAt]
    · intro i hi hi'
      obtain ⟨w, hw, hcov, hget⟩ := exists_covers_placed 0 hi'
      rw [zero_add] at hcov hget
      simp only [File.bytesAt, List.getElem_map, List.getElem_range, zero_add]
      rw [writeAll_get hap (hp.mem_iff.mpr hw) hcov, hget, List.getD_eq_getElem _ _ hi']

end Writes

/-! ## Reading from the start -/

/-- A program that takes bytes from the front of what is left; `none` when they run out. -/
abbrev Reader (α : Type) := StateT (List UInt8) Option α

def takeBytes (n : ℕ) : Reader (List UInt8) := fun bs => if n ≤ bs.length then some (bs.take n, bs.drop n) else none

theorem bind_eq {α β : Type} {m : Reader α} {k : α → Reader β} {bytes rest : List UInt8} {a : α}
    (h : m bytes = some (a, rest)) : (m >>= k) bytes = k a rest := by
  show (m bytes).bind _ = _
  rw [h]
  rfl

/-- The program consumes exactly these bytes and returns the value. -/
def Reads {α : Type} (m : Reader α) (bs : List UInt8) (a : α) : Prop := ∀ rest, m (bs ++ rest) = some (a, rest)

section Reads

variable {α β : Type} {m : Reader α} {k : α → Reader β} {bs cs : List UInt8} {a : α} {b : β}

theorem Reads.pure (a : α) : Reads (Pure.pure a : Reader α) [] a := fun _ => rfl

theorem Reads.bind (hm : Reads m bs a) (hk : Reads (k a) cs b) : Reads (m >>= k) (bs ++ cs) b := by
  intro rest
  show (m (bs ++ cs ++ rest)).bind _ = _
  rw [List.append_assoc, hm]
  exact hk rest

/-- Reading and then computing. -/
theorem Reads.map (hm : Reads m bs a) (f : α → β) : Reads (m >>= fun a => Pure.pure (f a)) bs (f a) := by
  have h := hm.bind (k := fun a => Pure.pure (f a)) (Reads.pure (f a))
  rwa [List.append_nil] at h

theorem reads_takeBytes {n : ℕ} (h : bs.length = n) : Reads (takeBytes n) bs bs := by
  intro rest
  unfold takeBytes
  rw [if_pos (by rw [List.length_append]; omega), List.take_left' h, List.drop_left' h]

/-- A loop reads what its rounds read, where an invariant fixes what a round reads. -/
theorem Reads.foldlM {σ ι : Type} (I : σ → Prop) {f : σ → ι → Reader σ} {g : σ → ι → σ} {enc : ι → List UInt8}
    {l : List ι} (h : ∀ x ∈ l, ∀ st, I st → Reads (f st x) (enc x) (g st x))
    (hg : ∀ x ∈ l, ∀ st, I st → I (g st x)) {st : σ} (hst : I st) :
    Reads (l.foldlM f st) (l.flatMap enc) (l.foldl g st) := by
  induction l generalizing st with
  | nil => exact Reads.pure st
  | cons x l ih =>
    rw [List.foldlM_cons, List.flatMap_cons, List.foldl_cons]
    apply (h x List.mem_cons_self st hst).bind
    exact ih (fun y hy => h y (List.mem_cons_of_mem x hy)) (fun y hy => hg y (List.mem_cons_of_mem x hy))
      (hg x List.mem_cons_self st hst)

/-- Items that are read one after the other. -/
theorem Reads.mapM {ι : Type} {f : ι → Reader β} {g : ι → β} {enc : ι → List UInt8} {l : List ι}
    (h : ∀ x ∈ l, Reads (f x) (enc x) (g x)) : Reads (l.mapM f) (l.flatMap enc) (l.map g) := by
  induction l with
  | nil => exact Reads.pure []
  | cons x l ih =>
    rw [List.mapM_cons, List.flatMap_cons, List.map_cons]
    apply (h x List.mem_cons_self).bind
    exact (ih fun y hy => h y (List.mem_cons_of_mem x hy)).map fun bs => g x :: bs

end Reads

end ByteFile

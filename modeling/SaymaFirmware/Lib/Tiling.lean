import Mathlib.Algebra.GroupWithZero.Nat
import Mathlib.Data.List.Chain
import Mathlib.Order.Interval.Finset.Nat

/-!
# Tilings of an address range

A range of addresses cut into tiles, each owned by someone or free. `Tiles a ts e` says that `ts` covers the range from `a` to `e` in
order; it is coalesced when no two free tiles are neighbours. Handing a tile back joins it with its free neighbours (`joined`), which
keeps the tiling coalesced; then a gap between the owned tiles is always one tile (`exists_free_of_gap`), and a range without owned
tiles is a single one (`eq_singleton_of_free`).
-/

namespace SaymaFirmware.Tiling

/-- A piece of a range: where it starts, how long it is, and who owns it. -/
structure Tile (β : Type*) where
  addr : Nat
  size : Nat
  owner : Option β

variable {β : Type*}

namespace Tile

/-- The address behind a tile. -/
def stop (t : Tile β) : Nat := t.addr + t.size

/-- Nobody owns the tile. -/
def free (t : Tile β) : Bool := t.owner.isNone

end Tile

/-- The tiles cover the range from `a` to `e`, in order. -/
def Tiles : Nat → List (Tile β) → Nat → Prop
  | a, [], e => a = e
  | a, t :: ts, e => t.addr = a ∧ 0 < t.size ∧ Tiles t.stop ts e

/-- No two free tiles are neighbours. -/
def Coalesced (ts : List (Tile β)) : Prop := ts.IsChain (fun s t => s.free = false ∨ t.free = false)

/-- The addresses of the free tiles. -/
def frees (ts : List (Tile β)) : List Nat := (ts.filter Tile.free).map Tile.addr

/-- The free part of the range. -/
def freeSize (ts : List (Tile β)) : Nat := ((ts.filter Tile.free).map Tile.size).sum

variable {a e : Nat} {x t : Tile β} {xs ys ts ls rs : List (Tile β)} {l r : Option (Tile β)}

@[simp] theorem frees_append (xs ys : List (Tile β)) : frees (xs ++ ys) = frees xs ++ frees ys := by simp [frees]

@[simp] theorem freeSize_append (xs ys : List (Tile β)) : freeSize (xs ++ ys) = freeSize xs + freeSize ys := by simp [freeSize]

theorem frees_cons_free (h : t.free = true) : frees (t :: ts) = t.addr :: frees ts := by simp [frees, h]

theorem frees_cons_owned (h : t.free = false) : frees (t :: ts) = frees ts := by simp [frees, h]

theorem freeSize_cons_free (h : t.free = true) : freeSize (t :: ts) = t.size + freeSize ts := by simp [freeSize, h]

theorem freeSize_cons_owned (h : t.free = false) : freeSize (t :: ts) = freeSize ts := by simp [freeSize, h]

theorem mem_frees {p : Nat} : p ∈ frees ts ↔ ∃ t ∈ ts, t.free = true ∧ t.addr = p := by simp [frees, and_assoc]

/-! ## Order -/

/-- A tiling of two lists meets in the middle. -/
theorem tiles_append : ∀ {xs : List (Tile β)} {a : Nat}, Tiles a (xs ++ ys) e ↔ ∃ m, Tiles a xs m ∧ Tiles m ys e
  | [], a => by simp [Tiles]
  | x :: xs, a => by simp [Tiles, tiles_append, and_assoc]

namespace Tiles

theorem le : ∀ {ts : List (Tile β)} {a : Nat}, Tiles a ts e → a ≤ e
  | [], _, h => Nat.le_of_eq h
  | t :: ts, a, h => by
    obtain ⟨rfl, -, h⟩ := h
    exact Nat.le_trans (Nat.le_add_right _ _) h.le

/-- A tile is not empty and lies in the range. -/
theorem bounds (h : Tiles a ts e) (ht : t ∈ ts) : a ≤ t.addr ∧ 0 < t.size ∧ t.stop ≤ e := by
  obtain ⟨ls, rs, rfl⟩ := List.append_of_mem ht
  obtain ⟨m, hl, rfl, hpos, hr⟩ := tiles_append.mp h
  exact ⟨hl.le, hpos, hr.le⟩

/-- The tiles before `x` end where it starts, and the ones behind it start where it ends. -/
theorem split (h : Tiles a (ls ++ x :: rs) e) : Tiles a ls x.addr ∧ Tiles x.stop rs e := by
  obtain ⟨m, hl, rfl, -, hr⟩ := tiles_append.mp h
  exact ⟨hl, hr⟩

theorem stop_le_of_mem_left (h : Tiles a (ls ++ x :: rs) e) (ht : t ∈ ls) : t.stop ≤ x.addr := (h.split.1.bounds ht).2.2

theorem le_addr_of_mem_right (h : Tiles a (ls ++ x :: rs) e) (ht : t ∈ rs) : x.stop ≤ t.addr := (h.split.2.bounds ht).1

/-- Different tiles do not overlap. -/
theorem stop_le_or (h : Tiles a ts e) {s t : Tile β} (hs : s ∈ ts) (ht : t ∈ ts) (hne : s ≠ t) :
    s.stop ≤ t.addr ∨ t.stop ≤ s.addr := by
  obtain ⟨ls, rs, rfl⟩ := List.append_of_mem hs
  rw [List.mem_append, List.mem_cons] at ht
  rcases ht with ht | rfl | ht
  · exact Or.inr (h.stop_le_of_mem_left ht)
  · exact absurd rfl hne
  · exact Or.inl (h.le_addr_of_mem_right ht)

/-- A tile is known by its address. -/
theorem eq_of_addr_eq (h : Tiles a ts e) {s t : Tile β} (hs : s ∈ ts) (ht : t ∈ ts) (hst : s.addr = t.addr) : s = t := by
  by_contra hne
  have h1 := (h.bounds hs).2.1
  have h2 := (h.bounds ht).2.1
  have h3 := h.stop_le_or hs ht hne
  simp only [Tile.stop] at h3
  omega

/-- There are at most as many tiles as addresses. -/
theorem length_le : ∀ {ts : List (Tile β)} {a : Nat}, Tiles a ts e → ts.length ≤ e - a
  | [], _, _ => Nat.zero_le _
  | t :: ts, a, h => by
    obtain ⟨rfl, hpos, h⟩ := h
    have hlen := h.length_le
    have hle := h.le
    simp only [Tile.stop, List.length_cons] at hlen hle ⊢
    omega

/-- The free part of the range is no longer than the range. -/
theorem freeSize_le : ∀ {ts : List (Tile β)} {a : Nat}, Tiles a ts e → a + freeSize ts ≤ e
  | [], _, h => Nat.le_of_eq h
  | t :: ts, a, h => by
    obtain ⟨rfl, hpos, h⟩ := h
    have ih := h.freeSize_le
    simp only [Tile.stop] at ih
    cases hf : t.free with
    | true => rw [freeSize_cons_free hf]; omega
    | false => rw [freeSize_cons_owned hf]; omega

/-- The addresses are increasing. -/
theorem sorted : ∀ {ts : List (Tile β)} {a : Nat}, Tiles a ts e → ts.Pairwise (fun s t => s.addr < t.addr)
  | [], _, _ => List.Pairwise.nil
  | t :: ts, a, h => by
    obtain ⟨rfl, hpos, h⟩ := h
    refine List.Pairwise.cons ?_ h.sorted
    intro s hs
    have hle := (h.bounds hs).1
    simp only [Tile.stop] at hle
    omega

/-- The addresses of the free tiles are increasing. -/
theorem frees_sorted (h : Tiles a ts e) : (frees ts).Pairwise (· < ·) := List.pairwise_map.mpr (h.sorted.filter _)

/-- If the range starts at a multiple of `k` and the sizes are multiples of it, so are the addresses. -/
theorem addr_mod {k : Nat} : ∀ {ts : List (Tile β)} {a : Nat}, Tiles a ts e → a % k = 0 → (∀ t ∈ ts, t.size % k = 0) →
    ∀ t ∈ ts, t.addr % k = 0
  | [], _, _, _, _, t, ht => by cases ht
  | s :: ts, a, h, ha, hs, t, ht => by
    obtain ⟨rfl, -, h⟩ := h
    rcases List.mem_cons.mp ht with rfl | ht
    · exact ha
    · refine h.addr_mod ?_ (fun u hu => hs u (List.mem_cons_of_mem s hu)) t ht
      rw [Tile.stop, Nat.add_mod, ha, hs s List.mem_cons_self, Nat.add_zero, Nat.zero_mod]

/-- If the last tile is owned, the free ones end before the range does. -/
theorem stop_lt_of_free (h : Tiles a ts e) (hlast : ∀ t ∈ ts.getLast?, t.free = false) (ht : t ∈ ts) (hf : t.free = true) :
    t.stop < e := by
  obtain ⟨ls, rs, rfl⟩ := List.append_of_mem ht
  cases rs with
  | nil =>
    rw [hlast t (by simp)] at hf
    cases hf
  | cons r rs =>
    have hr : r.addr = t.stop := h.split.2.1
    have hb := h.bounds (t := r) (by simp)
    simp only [Tile.stop] at *
    omega

/-- If the first tile is owned, the free ones start behind the range's start. -/
theorem lt_addr_of_free (h : Tiles a ts e) (hhead : ∀ t ∈ ts.head?, t.free = false) (ht : t ∈ ts) (hf : t.free = true) :
    a < t.addr := by
  cases ts with
  | nil => cases ht
  | cons s ts =>
    obtain ⟨rfl, hpos, h⟩ := h
    rcases List.mem_cons.mp ht with rfl | ht
    · rw [hhead t rfl] at hf
      cases hf
    · have hb := (h.bounds ht).1
      simp only [Tile.stop] at hb
      omega

open Classical in
/-- The free part of the range is the addresses in no owned tile. -/
theorem freeSize_eq_card : ∀ {ts : List (Tile β)} {a : Nat}, Tiles a ts e →
    freeSize ts = ((Finset.Ico a e).filter fun i => ∀ t ∈ ts, t.free = false → i < t.addr ∨ t.stop ≤ i).card
  | [], a, h => by
    obtain rfl : a = e := h
    simp [freeSize]
  | t :: ts, a, h => by
    obtain ⟨rfl, hpos, h⟩ := h
    have hle := h.le
    have hlt : t.addr < t.stop := by simp only [Tile.stop]; omega
    rw [← Finset.Ico_union_Ico_eq_Ico (Nat.le_of_lt hlt) hle, Finset.filter_union, Finset.card_union_of_disjoint (by
      apply Finset.disjoint_filter_filter
      exact Finset.Ico_disjoint_Ico_consecutive _ _ _)]
    -- the addresses of the first tile, then those behind it
    have hfst : ((Finset.Ico t.addr t.stop).filter fun i => ∀ u ∈ t :: ts, u.free = false → i < u.addr ∨ u.stop ≤ i).card =
        if t.free = true then t.size else 0 := by
      split
      · rename_i hf
        rw [Finset.filter_true_of_mem, Nat.card_Ico, Tile.stop, Nat.add_sub_cancel_left]
        intro i hi u hu huf
        rw [Finset.mem_Ico] at hi
        rcases List.mem_cons.mp hu with rfl | hu
        · rw [hf] at huf; cases huf
        · have := (h.bounds hu).1
          exact Or.inl (by omega)
      · rename_i hf
        rw [Finset.card_eq_zero, Finset.filter_eq_empty_iff]
        intro i hi hall
        rw [Finset.mem_Ico] at hi
        have := hall t List.mem_cons_self (by simpa using hf)
        omega
    have hsnd : ((Finset.Ico t.stop e).filter fun i => ∀ u ∈ t :: ts, u.free = false → i < u.addr ∨ u.stop ≤ i) =
        (Finset.Ico t.stop e).filter fun i => ∀ u ∈ ts, u.free = false → i < u.addr ∨ u.stop ≤ i := by
      apply Finset.filter_congr
      intro i hi
      rw [Finset.mem_Ico] at hi
      constructor
      · exact fun hall u hu => hall u (List.mem_cons_of_mem t hu)
      · intro hall u hu huf
        rcases List.mem_cons.mp hu with rfl | hu
        · exact Or.inr hi.1
        · exact hall u hu huf
    rw [hfst, hsnd, ← h.freeSize_eq_card]
    cases hf : t.free with
    | true => rw [freeSize_cons_free hf, if_pos rfl]
    | false => rw [freeSize_cons_owned hf, if_neg Bool.false_ne_true, Nat.zero_add]

/-- Every address of the range is in a tile. -/
theorem exists_mem : ∀ {ts : List (Tile β)} {a : Nat}, Tiles a ts e → ∀ {i : Nat}, a ≤ i → i < e →
    ∃ ls t rs, ts = ls ++ t :: rs ∧ t.addr ≤ i ∧ i < t.stop
  | [], a, h, i, hi, hie => by
    obtain rfl : a = e := h
    omega
  | t :: ts, a, h, i, hi, hie => by
    obtain ⟨rfl, hpos, h⟩ := h
    by_cases hlt : i < t.stop
    · exact ⟨[], t, ts, rfl, hi, hlt⟩
    · obtain ⟨ls, s, rs, rfl, h1, h2⟩ := h.exists_mem (Nat.le_of_not_lt hlt) hie
      exact ⟨t :: ls, s, rs, rfl, h1, h2⟩

end Tiles

/-! ## Coalesced tilings -/

/-- A part of the range that no owned tile touches is inside one free tile. -/
theorem exists_free_of_gap (h : Tiles a ts e) (hc : Coalesced ts) {i w : Nat} (hw : 0 < w) (hi : a ≤ i) (hie : i + w ≤ e)
    (hgap : ∀ t ∈ ts, t.free = false → t.stop ≤ i ∨ i + w ≤ t.addr) :
    ∃ t ∈ ts, t.free = true ∧ t.addr ≤ i ∧ i + w ≤ t.stop := by
  obtain ⟨ls, t, rs, rfl, h1, h2⟩ := h.exists_mem hi (by omega)
  have ht : t ∈ ls ++ t :: rs := by simp
  have hfree : t.free = true := by
    by_contra hf
    rcases hgap t ht (by simpa using hf) with hg | hg <;> omega
  refine ⟨t, ht, hfree, h1, ?_⟩
  by_contra hlt
  -- the part goes on into the next tile, which is owned
  cases rs with
  | nil =>
    have he : t.stop = e := h.split.2
    omega
  | cons r rs =>
    have hr : r.addr = t.stop := h.split.2.1
    have hpos := h.split.2.2.1
    have hown : r.free = false := by
      rcases (List.isChain_append_cons_cons.mp hc).2.1 with ho | ho
      · rw [hfree] at ho; cases ho
      · exact ho
    rcases hgap r (by simp) hown with hg | hg
    · simp only [Tile.stop] at *; omega
    · omega

/-- A tile may change its owner. -/
theorem Tiles.replace {y : Tile β} (h : Tiles a (xs ++ x :: ys) e) (h1 : y.addr = x.addr) (h2 : y.size = x.size) :
    Tiles a (xs ++ y :: ys) e := by
  obtain ⟨m, hl, hx, hpos, hr⟩ := tiles_append.mp h
  refine tiles_append.mpr ⟨m, hl, h1.trans hx, by omega, ?_⟩
  rwa [Tile.stop, h1, h2]

/-- A tile that is taken leaves the tiling coalesced. -/
theorem Coalesced.replace {y : Tile β} (h : Coalesced (xs ++ x :: ys)) (hy : y.free = false) : Coalesced (xs ++ y :: ys) := by
  obtain ⟨h1, h2, h3⟩ := List.isChain_append.mp h
  refine List.isChain_append.mpr ⟨h1, List.isChain_cons.mpr ⟨fun t _ => Or.inl hy, (List.isChain_cons.mp h2).2⟩, ?_⟩
  intro s _ t ht
  obtain rfl : y = t := by simpa using ht
  exact Or.inr hy

/-- Without an owned tile there is one tile. -/
theorem eq_singleton_of_free (h : Tiles a ts e) (hc : Coalesced ts) (hae : a < e) (hf : ∀ t ∈ ts, t.free = true) :
    ∃ t, ts = [t] ∧ t.free = true ∧ t.addr = a ∧ t.size = e - a := by
  cases ts with
  | nil =>
    obtain rfl : a = e := h
    omega
  | cons s ts =>
    cases ts with
    | nil =>
      obtain ⟨rfl, hpos, hstop⟩ := h
      have hstop : s.addr + s.size = e := hstop
      exact ⟨s, rfl, hf s (by simp), rfl, by omega⟩
    | cons t ts =>
      rcases (List.isChain_cons_cons.mp hc).1 with hs | ht
      · rw [hf s (by simp)] at hs; cases hs
      · rw [hf t (by simp)] at ht; cases ht

/-! ## Handing a tile back -/

/-- The tile `x` and its free neighbours as one free tile. -/
def joined (l : Option (Tile β)) (x : Tile β) (r : Option (Tile β)) : Tile β where
  addr := (l.map Tile.addr).getD x.addr
  size := (l.map Tile.size).getD 0 + x.size + (r.map Tile.size).getD 0
  owner := none

@[simp] theorem joined_free (l : Option (Tile β)) (x : Tile β) (r : Option (Tile β)) : (joined l x r).free = true := rfl

/-- What surrounds a tile of a coalesced tiling, with its free neighbours set apart. -/
structure Around (ls : List (Tile β)) (l r : Option (Tile β)) (rs : List (Tile β)) : Prop where
  left_free : ∀ t ∈ l, t.free = true
  right_free : ∀ t ∈ r, t.free = true
  left_owned : ∀ t ∈ ls.getLast?, t.free = false
  right_owned : ∀ t ∈ rs.head?, t.free = false
  left : Coalesced ls
  right : Coalesced rs

/-- The free neighbour on the left, set apart. -/
theorem exists_left (hc : Coalesced xs) : ∃ (ls : List (Tile β)) (l : Option (Tile β)), xs = ls ++ l.toList ∧
    (∀ t ∈ l, t.free = true) ∧ (∀ t ∈ ls.getLast?, t.free = false) ∧ Coalesced ls := by
  rcases List.eq_nil_or_concat xs with rfl | ⟨ls, t, rfl⟩
  · exact ⟨[], none, rfl, by simp, by simp, hc⟩
  · rw [List.concat_eq_append] at hc ⊢
    cases hf : t.free with
    | true =>
      refine ⟨ls, some t, rfl, by simp [hf], ?_, hc.left_of_append⟩
      intro s hs
      rcases (List.isChain_append.mp hc).2.2 s hs t (by simp) with h | h
      · exact h
      · rw [hf] at h; cases h
    | false => exact ⟨ls ++ [t], none, by simp, by simp, by simp [hf], hc⟩

/-- The free neighbour on the right, set apart. -/
theorem exists_right (hc : Coalesced ys) : ∃ (r : Option (Tile β)) (rs : List (Tile β)), ys = r.toList ++ rs ∧
    (∀ t ∈ r, t.free = true) ∧ (∀ t ∈ rs.head?, t.free = false) ∧ Coalesced rs := by
  cases ys with
  | nil => exact ⟨none, [], rfl, by simp, by simp, hc⟩
  | cons t rs =>
    cases hf : t.free with
    | true =>
      refine ⟨some t, rs, rfl, by simp [hf], ?_, hc.tail⟩
      intro s hs
      rcases (List.isChain_cons.mp hc).1 s hs with h | h
      · rw [hf] at h; cases h
      · exact h
    | false => exact ⟨none, t :: rs, rfl, by simp, by simp [hf], hc⟩

/-- Every tile of a coalesced tiling stands between its free neighbours, if it has any. -/
theorem exists_around (hc : Coalesced (xs ++ x :: ys)) : ∃ (ls : List (Tile β)) (l r : Option (Tile β)) (rs : List (Tile β)),
    xs = ls ++ l.toList ∧ ys = r.toList ++ rs ∧ Around ls l r rs := by
  obtain ⟨ls, l, rfl, hl1, hl2, hl3⟩ := exists_left hc.left_of_append
  obtain ⟨r, rs, rfl, hr1, hr2, hr3⟩ := exists_right hc.right_of_append.tail
  exact ⟨ls, l, r, rs, rfl, rfl, ⟨hl1, hr1, hl2, hr2, hl3, hr3⟩⟩

namespace Around

/-- Joining keeps the tiling coalesced. -/
theorem coalesced (h : Around ls l r rs) : Coalesced (ls ++ joined l x r :: rs) := by
  refine List.isChain_append.mpr ⟨h.left, List.isChain_cons.mpr ⟨?_, h.right⟩, ?_⟩
  · intro t ht
    exact Or.inr (h.right_owned t ht)
  · intro s hs t _
    exact Or.inl (h.left_owned s hs)

/-- Joining covers the same range. -/
theorem tiles (ht : Tiles a (ls ++ l.toList ++ x :: (r.toList ++ rs)) e) : Tiles a (ls ++ joined l x r :: rs) e := by
  rw [List.append_assoc] at ht
  obtain ⟨m, hl, hx⟩ := tiles_append.mp ht
  refine tiles_append.mpr ⟨m, hl, ?_⟩
  cases l <;> cases r <;>
    simp only [Option.toList, List.nil_append, List.cons_append, Tiles, Tile.stop, joined, Option.map, Option.getD] at hx ⊢
  · simpa using hx
  · obtain ⟨rfl, h1, hr, h2, h⟩ := hx
    rw [hr, Nat.add_assoc] at h
    exact ⟨rfl, by omega, by simpa using h⟩
  · obtain ⟨rfl, h1, hx, h2, h⟩ := hx
    rw [hx, Nat.add_assoc] at h
    exact ⟨rfl, by omega, by simpa using h⟩
  · obtain ⟨rfl, h1, hx, h2, hr, h3, h⟩ := hx
    rw [hr, hx, Nat.add_assoc, Nat.add_assoc, ← Nat.add_assoc] at h
    exact ⟨rfl, by omega, by simpa [Nat.add_assoc] using h⟩

/-- Joining frees the tile and nothing else. -/
theorem freeSize_joined (h : Around ls l r rs) (hx : x.free = false) :
    freeSize (ls ++ joined l x r :: rs) = freeSize (ls ++ l.toList ++ x :: (r.toList ++ rs)) + x.size := by
  have hl : freeSize l.toList = (l.map Tile.size).getD 0 := by
    cases l with
    | none => rfl
    | some t => simp [freeSize, h.left_free t rfl]
  have hr : freeSize r.toList = (r.map Tile.size).getD 0 := by
    cases r with
    | none => rfl
    | some t => simp [freeSize, h.right_free t rfl]
  rw [freeSize_append, freeSize_append, freeSize_append, freeSize_cons_free (joined_free l x r), freeSize_cons_owned hx,
    freeSize_append, hl, hr]
  simp only [joined]
  omega

/-- The free tiles before the joining. -/
theorem frees_eq (h : Around ls l r rs) (hx : x.free = false) :
    frees (ls ++ l.toList ++ x :: (r.toList ++ rs)) =
      frees ls ++ (l.map Tile.addr).toList ++ ((r.map Tile.addr).toList ++ frees rs) := by
  have hl : frees l.toList = (l.map Tile.addr).toList := by
    cases l with
    | none => rfl
    | some t => simp [frees, h.left_free t rfl]
  have hr : frees r.toList = (r.map Tile.addr).toList := by
    cases r with
    | none => rfl
    | some t => simp [frees, h.right_free t rfl]
  rw [frees_append, frees_append, frees_cons_owned hx, frees_append, hl, hr]

/-- The owned tiles stay, the joined one apart. -/
theorem mem_owned (h : Around ls l r rs) (ht : t.free = false) (htx : t ≠ x) :
    t ∈ ls ++ joined l x r :: rs ↔ t ∈ ls ++ l.toList ++ x :: (r.toList ++ rs) := by
  have hj : t ≠ joined l x r := by
    rintro rfl
    cases ht
  have hl : t ∉ l.toList := by
    intro hm
    rw [h.left_free t (Option.mem_toList.mp hm)] at ht
    cases ht
  have hr : t ∉ r.toList := by
    intro hm
    rw [h.right_free t (Option.mem_toList.mp hm)] at ht
    cases ht
  simp [hj, hl, hr, htx]

end Around

end SaymaFirmware.Tiling

import ParFlow.Hbt.HbtRotate

/-! The walk of `HBT_delete` up its stack. On the stack of the true path the walk restores
balance all the way; above a stack that is wrong further up it must stop in time. -/

namespace ParFlow.Hbt

open FuelRun HeapTree HTree

variable {α : Type} {T : HBT α} {F : ElementFrame α} {C D L : List (ElementFrame α)} {s : ElementTree α}

/-- The walk up a path, as far as it goes, meets no double rotation around an unbalanced
grandson. -/
def Clean : List (ElementFrame α) → Prop
  | [] => True
  | F :: C => ¬ StaleDouble F ∧ (Lowers F → Clean C)

/-- The walk ends inside the path, and without a rotation at its last frame. -/
def StopsInside : List (ElementFrame α) → Prop
  | [] => False
  | [F] => F.val.balance = 0
  | F :: C => ¬ StaleDouble F ∧ (Lowers F → StopsInside C)

instance decidableClean : ∀ C : List (ElementFrame α), Decidable (Clean C)
  | [] => isTrue trivial
  | F :: C => by
    have := decidableClean C
    exact inferInstanceAs (Decidable (¬ StaleDouble F ∧ (Lowers F → Clean C)))

instance decidableStopsInside : ∀ C : List (ElementFrame α), Decidable (StopsInside C)
  | [] => isFalse id
  | [F] => inferInstanceAs (Decidable (F.val.balance = 0))
  | F :: G :: C => by
    have := decidableStopsInside (G :: C)
    exact inferInstanceAs (Decidable (¬ StaleDouble F ∧ (Lowers F → StopsInside (G :: C))))

/-- What a step of the walk, or all of it, leaves: the subtree `old` became `new`. -/
structure Walked (T T' : HBT α) (C : List (ElementFrame α)) (old new : ElementTree α) : Prop where
  stores : Stores T' (plug C new)
  perm : new.addrs.Perm old.addrs
  balanced : HeightBalanced new
  elems : inOrder new = inOrder old
  frame : ∀ a, a ∉ (plug C old).addrs → T'.heap a = T.heap a
  num : T'.num = T.num
  mallocFlag : T'.mallocFlag = T.mallocFlag

theorem rebalanceStack_step (rest : Stack) (hT : Stores T (plug (F :: C) s))
    (hfit : F.Fits Label.balance (s.height + 1)) (hs : HeightBalanced s) (hstale : ¬ StaleDouble F)
    (hrest : father rest = father (stackOf C) ∨ F.val.balance ≠ -F.dir.sign) :
    ∃ T' t', rebalanceStack ((F.addr, F.dir) :: rest) T =
        (if Lowers F then rebalanceStack rest T' else .ok T') ∧ Walked T T' C (F.fill s) t' ∧
      t'.height + (if Lowers F then 1 else 0) = F.height (s.height + 1) ∧
      T'.height = if Lowers F ∧ rest = [] then T.height - 1 else T.height := by
  have hr : Rep T.heap (F.fill s) := (rep_plug.mp (show Rep T.heap (plug C (F.fill s)) from hT.rep)).2
  have hnd : (F.fill s).addrs.Nodup :=
    (nodup_plug.mp (show (plug C (F.fill s)).addrs.Nodup from hT.nodup)).1
  obtain ⟨h', top, t', he, ht, hh, htop⟩ := rebalanceAt_turned hr hnd hfit hs hstale
  let H := if Lowers F ∧ rest = [] then T.height - 1 else T.height
  have hH : (if decide (¬ Lowers F) = false ∧ rest = [] then T.height - 1 else T.height) = H := by
    simp only [H, decide_eq_false_iff_not, not_not]
  rcases htop with ⟨rfl, hrot⟩ | ⟨rfl, hptr⟩
  · have hrest : father rest = father (stackOf C) := hrest.resolve_right (not_not.mpr hrot)
    have hT₁ : Stores { T with height := H } (plug C (F.fill s)) := ⟨hT.root, hT.rep, hT.nodup⟩
    obtain ⟨T', e', hT', hnum, hheight, hflag, hfr⟩ := hT₁.turn ht
    refine ⟨T', t', ?_, ⟨hT', ht.perm, ht.balanced, ht.elems, hfr, hnum, hflag⟩, hh, hheight⟩
    simp only [rebalanceStack, he, bind, Except.bind, hH, hrest]
    simp only [e']
    by_cases hl : Lowers F <;> simp [hl]
  · refine ⟨{ T with heap := h', height := H }, t', ?_, ⟨?_, ht.perm, ht.balanced, ht.elems, fun a ha => ?_,
      rfl, rfl⟩, hh, rfl⟩
    · simp only [rebalanceStack, he, bind, Except.bind, hH]
      by_cases hl : Lowers F <;> simp [hl]
    · obtain ⟨h1, h2, h3⟩ := Stores.turn_same (C := C) hT ht (hptr.trans ptr_fill.symm)
      exact ⟨h1, h2, h3⟩
    · rw [addrs_plug.mem_iff, List.mem_append, not_or] at ha
      exact ht.frame a ha.1

theorem Walked.trans {T₁ T₂ : HBT α} {t₁ t₂ : ElementTree α} (h₁ : Walked T T₁ (L ++ D) (F.fill s) t₁)
    (h₂ : Walked T₁ T₂ D (plug L t₁) t₂) : Walked T T₂ D (plug (F :: L) s) t₂ := by
  have hp : (plug L t₁).addrs.Perm (plug (F :: L) s).addrs :=
    addrs_plug.trans ((h₁.perm.append_right _).trans addrs_plug.symm)
  refine ⟨h₂.stores, h₂.perm.trans hp, h₂.balanced, h₂.elems.trans (elems_plug_congr _ h₁.elems),
    fun a ha => ?_, h₂.num.trans h₁.num, h₂.mallocFlag.trans h₁.mallocFlag⟩
  have ha₁ : a ∉ (plug (L ++ D) (F.fill s)).addrs := by
    rw [plug_append]
    exact ha
  have ha₂ : a ∉ (plug D (plug L t₁)).addrs := by
    rw [addrs_plug.mem_iff, List.mem_append, hp.mem_iff, ← List.mem_append, ← addrs_plug.mem_iff]
    exact ha
  exact (h₂.frame a ha₂).trans (h₁.frame a ha₁)

/-- On the true path the walk restores balance and keeps the height of the header true. -/
theorem rebalanceStack_clean (hC : C ≠ []) (hT : Stores T (plug C s))
    (hfit : FitsCtx Label.balance C (s.height + 1)) (hs : HeightBalanced s) (hclean : Clean C)
    (hheight : T.height = ctxHeight C (s.height + 1)) :
    ∃ T' t', rebalanceStack (stackOf C) T = .ok T' ∧ Walked T T' [] (plug C s) t' ∧ T'.height = t'.height := by
  induction C generalizing T s with
  | nil => exact absurd rfl hC
  | cons F C ih =>
    obtain ⟨hstale, hrest⟩ := hclean
    obtain ⟨hF, hfitC⟩ := hfit
    obtain ⟨T₁, t₁, he, hw, hh, hTh⟩ :=
      rebalanceStack_step (stackOf C) hT hF hs hstale (Or.inl rfl)
    have hw' : Walked T T₁ (C ++ []) (F.fill s) t₁ := by rwa [List.append_nil]
    rw [ctxHeight, ← hh] at hheight
    rw [← hh] at hfitC
    by_cases hl : Lowers F
    · rw [if_pos hl] at he hheight hfitC
      rcases eq_or_ne C [] with rfl | hne
      · refine ⟨T₁, t₁, he, hw, ?_⟩
        rw [hTh, if_pos ⟨hl, rfl⟩, hheight]
        rfl
      · have hT₁ : T₁.height = ctxHeight C (t₁.height + 1) := by
          rw [hTh, if_neg, hheight]
          rintro ⟨-, h⟩
          exact hne (List.map_eq_nil_iff.mp h)
        obtain ⟨T₂, t₂, he₂, hw₂, hh₂⟩ := ih hne hw.stores hfitC hw.balanced (hrest hl) hT₁
        exact ⟨T₂, t₂, he.trans he₂, hw'.trans hw₂, hh₂⟩
    · rw [if_neg hl] at he hheight hfitC
      rw [if_neg fun h => hl h.1] at hTh
      refine ⟨T₁, plug C t₁, he, hw'.trans ⟨hw.stores, List.Perm.refl _, ?_, rfl, fun _ _ => rfl, rfl, rfl⟩, ?_⟩
      · exact balanced_plug.mpr ⟨hfitC, hw.balanced⟩
      · rw [hTh, hheight, height_plug]
        rfl

/-- A walk that stops inside the path does not look at the stack above it. -/
theorem rebalanceStack_stops (tail : Stack) (hT : Stores T (plug (L ++ D) s))
    (hfit : FitsCtx Label.balance L (s.height + 1)) (hs : HeightBalanced s) (hstop : StopsInside L) :
    ∃ T' t', rebalanceStack (stackOf L ++ tail) T = .ok T' ∧ Walked T T' D (plug L s) t' ∧
      t'.height = ctxHeight L (s.height + 1) ∧ T'.height = T.height := by
  induction L generalizing T s with
  | nil => exact absurd hstop id
  | cons F L ih =>
    obtain ⟨hF, hfitL⟩ := hfit
    have hd0 : F.dir.sign ≠ 0 := by cases F.dir <;> decide
    rcases L with _ | ⟨G, L⟩
    -- the last frame is balanced: no rotation, and the walk is done
    · have h0 : F.val.balance = 0 := hstop
      have hne : F.val.balance ≠ -F.dir.sign := by rw [h0]; exact (neg_ne_zero.mpr hd0).symm
      have hl : ¬ Lowers F := by
        rintro (h | ⟨h, -⟩)
        · exact hd0 (h ▸ h0)
        · exact hne h
      obtain ⟨T₁, t₁, he, hw, hh, hTh⟩ := rebalanceStack_step (C := D) tail hT hF hs
        (fun h => hne h.1) (Or.inr hne)
      rw [if_neg hl] at he hh
      rw [if_neg fun h => hl h.1] at hTh
      exact ⟨T₁, t₁, he, hw, hh, hTh⟩
    · obtain ⟨hstale, hrest⟩ := hstop
      obtain ⟨T₁, t₁, he, hw, hh, hTh⟩ := rebalanceStack_step (C := G :: L ++ D)
        (stackOf (G :: L) ++ tail) hT hF hs hstale (Or.inl rfl)
      rw [if_neg fun h => List.cons_ne_nil _ _ h.2] at hTh
      rw [ctxHeight, ← hh]
      rw [← hh] at hfitL
      by_cases hl : Lowers F
      · rw [if_pos hl] at he hfitL ⊢
        obtain ⟨T₂, t₂, he₂, hw₂, hh₂, hTh₂⟩ := ih hw.stores hfitL hw.balanced (hrest hl)
        exact ⟨T₂, t₂, he.trans he₂, hw.trans hw₂, hh₂, hTh₂.trans hTh⟩
      · rw [if_neg hl] at he hfitL ⊢
        refine ⟨T₁, plug (G :: L) t₁, he, hw.trans ⟨?_, List.Perm.refl _, ?_, rfl, fun _ _ => rfl, rfl, rfl⟩,
          height_plug _ _, hTh⟩
        · rw [← plug_append]
          exact hw.stores
        · exact balanced_plug.mpr ⟨hfitL, hw.balanced⟩

end ParFlow.Hbt

import ChatGateway.Proofs.Markers

/-!
# Removing markers from a text

Markers are removed from the parts of a text as they are from the whole, if none of them stands over
the border of two parts. What is left at the end or at the beginning of a text comes from the end or
the beginning of the text.
-/

namespace ChatGateway.Text

theorem remove_of_none {m s : List Char} (h : cut? m s = none) : remove m s = s := by
  rw [remove]
  split
  · rfl
  · next h' => rw [h] at h'; exact absurd h' (by simp)

theorem remove_of_some {m s b a : List Char} (h : cut? m s = some (b, a)) :
    remove m s = b ++ remove m a := by
  rw [remove]
  split
  · next h' => rw [h] at h'; exact absurd h' (by simp)
  · next h' =>
    obtain ⟨rfl, rfl⟩ := Prod.mk.inj (Option.some.inj (h.symm.trans h'))
    rfl

section
variable {m : List Char} (hm : m ≠ [])
include hm

theorem remove_of_absent {s : List Char} (h : ¬ m <:+: s) : remove m s = s :=
  remove_of_none (cut?_eq_none_iff.mpr ((clear_iff_absent hm).mpr h))

theorem absent_before {s b a : List Char} (h : cut? m s = some (b, a)) : ¬ m <:+: b := by
  obtain ⟨-, hc⟩ := (cut?_eq_some_iff hm).mp h
  rw [← clear_iff_absent hm]
  intro w hw hs hp
  rw [List.append_nil] at hp
  exact hc w hw hs (hp.trans (List.prefix_append w _))

theorem remove_append {s t : List Char} (h : Whole m s t) :
    remove m (s ++ t) = remove m s ++ remove m t := by
  fun_induction remove m s with
  | case1 s hs =>
    have hn : ¬ m <:+: s := (clear_iff_absent hm).mp (cut?_eq_none_iff.mp hs)
    have hcut := cut?_append_left (h.clear hn)
    cases ht : cut? m t with
    | none =>
      rw [ht] at hcut
      rw [remove_of_none hcut, remove_of_none ht]
    | some r =>
      obtain ⟨b, a⟩ := r
      rw [ht] at hcut
      rw [remove_of_some hcut, remove_of_some ht, List.append_assoc]
  | case2 s b a hs ih =>
    have ha : Whole m a t := h.restrict (suffix_of_cut? hm hs) (List.prefix_refl t)
    rw [remove_of_some (cut?_append_right hm hs t), ih ha, List.append_assoc]

theorem exists_suffix_remove {s w : List Char} (h : w <:+ remove m s) :
    ∃ u, u <:+ s ∧ remove m u = w := by
  fun_induction remove m s with
  | case1 s hs =>
    have hn : ¬ m <:+: s := (clear_iff_absent hm).mp (cut?_eq_none_iff.mp hs)
    exact ⟨w, h, remove_of_absent hm fun hi => hn (hi.trans h.isInfix)⟩
  | case2 s b a hs ih =>
    obtain ⟨d, hd⟩ := h
    rcases List.append_eq_append_iff.mp hd with ⟨b', rfl, hw⟩ | ⟨d', rfl, ha⟩
    · -- what is left reaches into the text in front of the first occurrence
      obtain ⟨hs', hc⟩ := (cut?_eq_some_iff hm).mp hs
      rw [clear_append] at hc
      refine ⟨b' ++ m ++ a, ⟨d, by rw [hs']; simp⟩, ?_⟩
      rw [remove_of_some ((cut?_eq_some_iff hm).mpr ⟨rfl, hc.2⟩), hw]
    · obtain ⟨u, hu, rfl⟩ := ih ⟨d', ha.symm⟩
      exact ⟨u, hu.trans (suffix_of_cut? hm hs), rfl⟩

theorem exists_prefix_remove {s w : List Char} (h : w <+: remove m s) :
    ∃ u, u <+: s ∧ remove m u = w := by
  fun_induction remove m s generalizing w with
  | case1 s hs =>
    have hn : ¬ m <:+: s := (clear_iff_absent hm).mp (cut?_eq_none_iff.mp hs)
    exact ⟨w, h, remove_of_absent hm fun hi => hn (hi.trans h.isInfix)⟩
  | case2 s b a hs ih =>
    obtain ⟨hs', hc⟩ := (cut?_eq_some_iff hm).mp hs
    rcases prefix_append_cases h with hb | ⟨r, -, rfl, hr⟩
    · refine ⟨w, hb.trans ⟨m ++ a, by rw [hs']; simp⟩, remove_of_absent hm fun hi => ?_⟩
      exact absent_before hm hs (hi.trans hb.isInfix)
    · obtain ⟨u, hu, rfl⟩ := ih hr
      obtain ⟨v, rfl⟩ := hu
      refine ⟨b ++ m ++ u, ⟨v, by rw [hs']; simp⟩, ?_⟩
      have hcut : cut? m (b ++ m ++ u) = some (b, u) := by
        refine (cut?_eq_some_iff hm).mpr ⟨rfl, ?_⟩
        intro w hw hsuf hp
        refine hc w hw hsuf (hp.trans ?_)
        exact (List.prefix_append_right_inj w).mpr ((List.prefix_append_right_inj m).mpr ⟨v, rfl⟩)
      rw [remove_of_some hcut]

end

/-- Removing one marker leaves the occurrences of another. -/
theorem Angled.length_le_remove {ms : List (List Char)} (hms : Angled ms) {m m' s : List Char}
    (hm : m ∈ ms) (hm' : m' ∈ ms) (hne : m ≠ m') (h : m <:+: s) :
    m.length ≤ (remove m' s).length := by
  fun_induction remove m' s with
  | case1 s hs => exact h.length_le
  | case2 s b a hs ih =>
    rw [List.length_append]
    obtain ⟨rfl, -⟩ := (cut?_eq_some_iff (hms.ne_nil hm')).mp hs
    by_cases hb : m <:+: b
    · have := hb.length_le
      omega
    by_cases ha : m <:+: a
    · have := ih ha
      omega
    -- the marker that is removed keeps what stands around it apart
    refine absurd h ?_
    have hhead : (m' ++ a).head? = some '<' := by
      rw [List.head?_append, hms.head m' hm']
      rfl
    have hclear : Clear m (b ++ (m' ++ a)) [] := by
      rw [clear_append, List.append_nil, clear_append, List.append_nil]
      exact ⟨(hms.whole_of_head hm (.inr hhead) b).clear hb, hms.clear_other hm hm' hne a,
        (clear_iff_absent (hms.ne_nil hm)).mpr ha⟩
    rw [List.append_assoc]
    exact (clear_iff_absent (hms.ne_nil hm)).mp hclear

end ChatGateway.Text

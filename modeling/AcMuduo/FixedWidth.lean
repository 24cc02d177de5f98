import AcMuduo.Glyphs

namespace AcMuduo

variable {α : Type} {b : Nat}

theorem append_lt_append [LT α] {s t : List α} (hlength : s.length = t.length) (h : s < t)
    (x y : List α) : s ++ x < t ++ y := by
  induction s generalizing t with
  | nil =>
    have hnil : t = [] := List.length_eq_zero_iff.mp hlength.symm
    subst hnil
    cases h
  | cons a s ih =>
    cases t with
    | nil => cases hlength
    | cons c t =>
      rw [List.cons_append, List.cons_append, List.cons_lt_cons_iff]
      cases List.cons_lt_cons_iff.mp h with
      | inl hac => exact .inl hac
      | inr heq => exact .inr ⟨heq.1, ih (Nat.add_right_cancel hlength) heq.2⟩

namespace Glyphs

variable (g : Glyphs α b)

def fixed (k n : Nat) : List α :=
  List.replicate (k - (g.written n).length) (g.glyph 0) ++ g.written n

def filled (x : α) (k n : Nat) : List α :=
  List.replicate (k - (g.written n).length) x ++ g.written n

variable {g} {k m n : Nat}

theorem length_fixed (hb : 1 < b) (hk : 0 < k) (hn : n < b ^ k) : (g.fixed k n).length = k := by
  have hle := g.length_written_le hb hk hn
  rw [fixed, List.length_append, List.length_replicate]
  omega

theorem value_fixed (hb : 1 < b) (k n : Nat) : g.value (g.fixed k n) = n := by
  rw [fixed, value_leading_zeros (g.digit_glyph 0 (by omega)), value_written hb]

theorem fixed_digits (hb : 1 < b) {x : α} (hx : x ∈ g.fixed k n) : ∃ d < b, x = g.glyph d := by
  cases List.mem_append.mp hx with
  | inl hx => exact ⟨0, by omega, List.eq_of_mem_replicate hx⟩
  | inr hx => exact (written_canonical hb n).digits x hx

theorem value_cons (x : α) (text : List α) :
    g.value (x :: text) = g.digit x * b ^ text.length + g.value text := by
  rw [value, value, List.reverse_cons, List.map_append, Nat.ofDigits_append]
  simp [mul_comm, add_comm]

theorem value_lt {text : List α} (hb : 1 < b) (h : ∀ x ∈ text, ∃ d < b, x = g.glyph d) :
    g.value text < b ^ text.length := by
  have hlt := Nat.ofDigits_lt_base_pow_length hb (l := text.reverse.map g.digit) fun d hd => by
    obtain ⟨x, hx, rfl⟩ := List.mem_map.mp hd
    obtain ⟨e, he, rfl⟩ := h x (List.mem_reverse.mp hx)
    rwa [g.digit_glyph e he]
  rwa [List.length_map, List.length_reverse] at hlt

def Ordered [LT α] (g : Glyphs α b) : Prop :=
  ∀ d < b, ∀ e < b, d < e → g.glyph d < g.glyph e

theorem lt_of_value_lt [LT α] (hg : g.Ordered) (hb : 1 < b) {s t : List α}
    (hs : ∀ x ∈ s, ∃ d < b, x = g.glyph d) (ht : ∀ x ∈ t, ∃ d < b, x = g.glyph d)
    (hlength : s.length = t.length) (h : g.value s < g.value t) : s < t := by
  induction s generalizing t with
  | nil =>
    have hnil : t = [] := List.length_eq_zero_iff.mp hlength.symm
    subst hnil
    exact absurd h (lt_irrefl _)
  | cons x s ih =>
    cases t with
    | nil => cases hlength
    | cons y t =>
      rw [List.length_cons, List.length_cons, Nat.add_right_cancel_iff] at hlength
      rw [List.forall_mem_cons] at hs ht
      obtain ⟨⟨d, hd, rfl⟩, hs⟩ := hs
      obtain ⟨⟨e, he, rfl⟩, ht⟩ := ht
      rw [value_cons, value_cons, g.digit_glyph d hd, g.digit_glyph e he, hlength] at h
      rw [List.cons_lt_cons_iff]
      obtain hde | rfl | hed := lt_trichotomy d e
      · exact .inl (hg d hd e he hde)
      · exact .inr ⟨rfl, ih hs ht hlength (by omega)⟩
      · -- a larger first digit outweighs the rest
        have hrest := value_lt hb ht
        have hpow : (e + 1) * b ^ t.length ≤ d * b ^ t.length := Nat.mul_le_mul_right _ hed
        rw [Nat.succ_mul] at hpow
        omega

theorem fixed_append_lt [LT α] (hg : g.Ordered) (hb : 1 < b) (hk : 0 < k) (hm : m < b ^ k)
    (hn : n < b ^ k) {s t : List α} (h : m < n ∨ m = n ∧ s < t) :
    g.fixed k m ++ s < g.fixed k n ++ t := by
  cases h with
  | inl hlt =>
    refine append_lt_append (by rw [length_fixed hb hk hm, length_fixed hb hk hn]) ?_ s t
    refine lt_of_value_lt hg hb (fun _ => fixed_digits hb) (fun _ => fixed_digits hb) ?_ ?_
    · rw [length_fixed hb hk hm, length_fixed hb hk hn]
    · rwa [value_fixed hb, value_fixed hb]
  | inr heq =>
    rw [heq.1]
    exact List.append_left_lt heq.2

theorem length_filled (hb : 1 < b) (x : α) (hk : 0 < k) (hn : n < b ^ k) :
    (g.filled x k n).length = k := by
  have hle := g.length_written_le hb hk hn
  rw [filled, List.length_append, List.length_replicate]
  omega

theorem length_written_mono (hb : 1 < b) (h : m ≤ n) :
    (g.written m).length ≤ (g.written n).length := by
  have hcanonical := written_canonical (g := g) hb n
  have hlt := value_lt hb hcanonical.digits
  rw [value_written hb] at hlt
  exact g.length_written_le hb (List.length_pos_of_ne_nil hcanonical.nonempty) (by omega)

theorem filled_lt [LT α] (hg : g.Ordered) (hb : 1 < b) {x : α} (hx : ∀ d < b, x < g.glyph d)
    (hk : 0 < k) (hn : n < b ^ k) (h : m < n) : g.filled x k m < g.filled x k n := by
  have hmn := length_written_mono (g := g) hb h.le
  have hnk := g.length_written_le hb hk hn
  obtain hlt | heq := Nat.lt_or_eq_of_le hmn
  · -- the shorter number still has an `x` where the longer one has its first digit
    obtain ⟨d, text, htext⟩ := List.exists_cons_of_ne_nil (written_canonical (g := g) hb n).nonempty
    obtain ⟨e, he, rfl⟩ := (written_canonical (g := g) hb n).digits d (by rw [htext]; simp)
    have hsplit : k - (g.written m).length = (k - (g.written n).length) +
        ((g.written n).length - (g.written m).length - 1 + 1) := by omega
    rw [filled, filled, hsplit, List.replicate_add, List.append_assoc, List.replicate_succ, htext]
    apply List.append_left_lt
    rw [List.cons_append, List.cons_lt_cons_iff]
    exact .inl (hx e he)
  · rw [filled, filled, heq]
    apply List.append_left_lt
    refine lt_of_value_lt hg hb ?_ ?_ heq ?_
    · exact (written_canonical hb m).digits
    · exact (written_canonical hb n).digits
    · rwa [value_written hb, value_written hb]

end Glyphs

end AcMuduo

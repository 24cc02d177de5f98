import AcMuduo.Numeral

namespace AcMuduo

/-- What is written for each digit of a base, and how it is read. -/
structure Glyphs (α : Type) (b : Nat) where
  glyph : Nat → α
  digit : α → Nat
  digit_glyph : ∀ d < b, digit (glyph d) = d

namespace Glyphs

variable {α : Type} {b : Nat} (g : Glyphs α b)

def written (n : Nat) : List α := (numeral b n).reverse.map g.glyph

def value (text : List α) : Nat := Nat.ofDigits b (text.reverse.map g.digit)

/-- A text of digits, of which only the text of zero begins with a zero. -/
structure Canonical (text : List α) : Prop where
  digits : ∀ x ∈ text, ∃ d < b, x = g.glyph d
  nonempty : text ≠ []
  leading : text.head? = some (g.glyph 0) → text = [g.glyph 0]

def IsNumeral (n : Nat) (text : List α) : Prop := g.Canonical text ∧ g.value text = n

variable {n : Nat}

theorem written_reverse : (g.written n).reverse = (numeral b n).map g.glyph := by
  rw [written, ← List.map_reverse, List.reverse_reverse]

theorem length_written_le (hb : 1 < b) {k : Nat} (hk : 0 < k) (hn : n < b ^ k) :
    (g.written n).length ≤ k := by
  rw [written, List.length_map, List.length_reverse]
  exact numeral_length_le hb hk hn

variable {g}

theorem map_digit_glyph {ds : List Nat} (h : ∀ d ∈ ds, d < b) :
    (ds.map g.glyph).map g.digit = ds := by
  rw [List.map_map]
  exact (List.map_congr_left fun d hd => g.digit_glyph d (h d hd)).trans (List.map_id _)

theorem map_glyph_digit {text : List α} (h : ∀ x ∈ text, ∃ d < b, x = g.glyph d) :
    (text.map g.digit).map g.glyph = text := by
  rw [List.map_map]
  refine (List.map_congr_left fun x hx => ?_).trans (List.map_id _)
  obtain ⟨d, hd, rfl⟩ := h x hx
  rw [Function.comp_apply, g.digit_glyph d hd, id]

theorem value_written (hb : 1 < b) (n : Nat) : g.value (g.written n) = n := by
  rw [value, written_reverse, map_digit_glyph fun _ => numeral_lt hb, ofDigits_numeral]

theorem value_leading_zeros {x : α} (hx : g.digit x = 0) (k : Nat) (text : List α) :
    g.value (List.replicate k x ++ text) = g.value text := by
  rw [value, value, List.reverse_append, List.reverse_replicate, List.map_append,
    List.map_replicate, hx, Nat.ofDigits_append_replicate_zero]

theorem glyph_injOn {d e : Nat} (hd : d < b) (he : e < b) (h : g.glyph d = g.glyph e) : d = e := by
  rw [← g.digit_glyph d hd, h, g.digit_glyph e he]

theorem written_canonical (hb : 1 < b) (n : Nat) : g.Canonical (g.written n) := by
  refine ⟨fun x hx => ?_, ?_, fun hhead => ?_⟩
  · obtain ⟨d, hd, rfl⟩ := List.mem_map.mp hx
    exact ⟨d, numeral_lt hb (List.mem_reverse.mp hd), rfl⟩
  · rw [written, Ne, List.map_eq_nil_iff, List.reverse_eq_nil_iff, numeral_step hb]
    exact List.cons_ne_nil _ _
  · rw [written, List.head?_map, List.head?_reverse] at hhead
    obtain ⟨d, hd, hzero⟩ := Option.map_eq_some_iff.mp hhead
    have hlt : d < b := numeral_lt hb (List.mem_of_getLast? hd)
    cases glyph_injOn hlt (by omega) hzero
    cases numeral_getLast? hd
    rfl

theorem Canonical.eq_written (hb : 1 < b) {text : List α} (h : g.Canonical text) :
    text = g.written (g.value text) := by
  have hdigits : ∀ x ∈ text.reverse, ∃ d < b, x = g.glyph d := fun x hx =>
    h.digits x (List.mem_reverse.mp hx)
  have hnumeral : numeral b (g.value text) = text.reverse.map g.digit := by
    refine numeral_ofDigits hb ?_ (by simpa using h.nonempty) fun hlast => ?_
    · intro d hd
      obtain ⟨x, hx, rfl⟩ := List.mem_map.mp hd
      obtain ⟨d, hlt, rfl⟩ := hdigits x hx
      rwa [g.digit_glyph d hlt]
    · rw [List.getLast?_map, List.getLast?_reverse] at hlast
      obtain ⟨x, hx, hzero⟩ := Option.map_eq_some_iff.mp hlast
      obtain ⟨d, hlt, rfl⟩ := h.digits x (List.mem_of_head? hx)
      rw [g.digit_glyph d hlt] at hzero
      subst d
      rw [h.leading hx]
      simpa using g.digit_glyph 0 (by omega)
  rw [← List.reverse_inj, written_reverse, hnumeral, map_glyph_digit hdigits]

theorem isNumeral_iff (hb : 1 < b) {text : List α} :
    g.IsNumeral n text ↔ text = g.written n := by
  constructor
  · rintro ⟨hcanonical, rfl⟩
    exact hcanonical.eq_written hb
  · rintro rfl
    exact ⟨written_canonical hb n, value_written hb n⟩

section Signed

variable (g) (minus : α)

def signed (z : Int) : List α := (if z < 0 then [minus] else []) ++ g.written z.natAbs

def IsSignedNumeral (z : Int) (text : List α) : Prop :=
  ∃ ds, text = (if z < 0 then [minus] else []) ++ ds ∧ g.IsNumeral z.natAbs ds

def signedValue [DecidableEq α] (text : List α) : Int :=
  if text.head? = some minus then -g.value text.tail else g.value text

variable {g minus} {z : Int}

theorem isSignedNumeral_iff (hb : 1 < b) {text : List α} :
    g.IsSignedNumeral minus z text ↔ text = g.signed minus z := by
  constructor
  · rintro ⟨ds, rfl, hds⟩
    rw [signed, (isNumeral_iff hb).mp hds]
  · rintro rfl
    exact ⟨_, rfl, (isNumeral_iff hb).mpr rfl⟩

theorem signedValue_signed [DecidableEq α] (hb : 1 < b) (hminus : ∀ d < b, g.glyph d ≠ minus)
    (z : Int) : g.signedValue minus (g.signed minus z) = z := by
  by_cases hneg : z < 0
  · rw [signed, if_pos hneg, List.singleton_append, signedValue, List.head?_cons, if_pos rfl,
      List.tail_cons, value_written hb]
    omega
  · have hhead : (g.written z.natAbs).head? ≠ some minus := by
      intro hhead
      obtain ⟨d, hd, heq⟩ := (written_canonical hb _).digits _ (List.mem_of_head? hhead)
      exact hminus d hd heq.symm
    rw [signed, if_neg hneg, List.nil_append, signedValue, if_neg hhead, value_written hb]
    omega

end Signed

section Joined

variable (g) (sep : α)

def joined (ns : List Nat) : List α := [sep].intercalate (ns.map g.written)

def values [DecidableEq α] (text : List α) : List Nat := (text.splitOn sep).map g.value

variable {g sep} {ns : List Nat}

theorem glyph_of_mem_written (hb : 1 < b) {x : α} (hx : x ∈ g.written n) :
    ∃ d < b, x = g.glyph d := (written_canonical hb n).digits x hx

theorem values_joined [DecidableEq α] (hb : 1 < b) (hsep : ∀ d < b, g.glyph d ≠ sep)
    (hne : ns ≠ []) : g.values sep (g.joined sep ns) = ns := by
  have hdigits : ∀ text ∈ ns.map g.written, sep ∉ text := by
    intro text htext hmem
    obtain ⟨n, -, rfl⟩ := List.mem_map.mp htext
    obtain ⟨d, hd, heq⟩ := glyph_of_mem_written hb hmem
    exact hsep d hd heq.symm
  rw [values, joined, List.splitOn_intercalate sep hdigits (by simpa using hne), List.map_map]
  exact (List.map_congr_left fun n _ => value_written hb n).trans (List.map_id _)

theorem joined_cons_cons (m : Nat) :
    g.joined sep (n :: m :: ns) = g.written n ++ sep :: g.joined sep (m :: ns) := by
  rw [joined, List.map_cons, List.map_cons, List.intercalate_cons_cons, List.append_assoc]
  rfl

theorem mem_joined (hb : 1 < b) {x : α} (hx : x ∈ g.joined sep ns) :
    x = sep ∨ ∃ d < b, x = g.glyph d := by
  induction ns with
  | nil => cases hx
  | cons n ns ih =>
    cases ns with
    | nil =>
      rw [joined, List.map_singleton, List.intercalate_singleton] at hx
      exact .inr (glyph_of_mem_written hb hx)
    | cons m ns =>
      rw [joined_cons_cons, List.mem_append, List.mem_cons] at hx
      obtain hx | hx | hx := hx
      · exact .inr (glyph_of_mem_written hb hx)
      · exact .inl hx
      · exact ih hx

theorem length_joined_lt (hb : 1 < b) {k : Nat} (hk : 0 < k) (hlt : ∀ n ∈ ns, n < b ^ k)
    (hne : ns ≠ []) : (g.joined sep ns).length < ns.length * (k + 1) := by
  induction ns with
  | nil => exact absurd rfl hne
  | cons n ns ih =>
    have hn : (g.written n).length ≤ k := g.length_written_le hb hk (hlt n List.mem_cons_self)
    cases ns with
    | nil =>
      rw [joined, List.map_singleton, List.intercalate_singleton, List.length_singleton]
      omega
    | cons m ns =>
      have hrest := ih (fun n hn => hlt n (List.mem_cons_of_mem _ hn)) (List.cons_ne_nil _ _)
      rw [joined_cons_cons, List.length_append, List.length_cons, List.length_cons (a := n),
        Nat.add_mul]
      omega

theorem joined_ne_nil (hb : 1 < b) (hne : ns ≠ []) : g.joined sep ns ≠ [] := by
  obtain ⟨n, ns, rfl⟩ := List.exists_cons_of_ne_nil hne
  have hn : g.written n ≠ [] := (written_canonical hb n).nonempty
  cases ns with
  | nil =>
    rw [joined, List.map_singleton, List.intercalate_singleton]
    exact hn
  | cons m ns =>
    rw [joined_cons_cons]
    exact List.append_ne_nil_of_left_ne_nil hn _

end Joined

end Glyphs

end AcMuduo

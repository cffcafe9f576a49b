import Tapgres.Decode.Format
import Mathlib.Tactic.IntervalCases

/-!
# The parameters of a Bind message

A Bind message carries its parameters with a list of format codes: none (all text), one for all of them,
or one each.  `format_bind` folds the list into two flags; this file compares what it renders with the
format of each parameter:

* `boundParams` — the rendered parameters inside the text of `format_bind` (`formatBind_eq`);
* `parameterFormat` — the code that applies to a parameter;
* `bind_in_format_iff` — when every parameter is rendered in its own format;
* `bind_text_as_binary` — an empty list of codes, which both flags accept.
-/

namespace Tapgres.Decode

open Tapgres.Net Tapgres.Pgwire

/-! ### What is rendered -/

/-- One parameter as `format_bind` renders it. -/
def boundParam (codes : List ℤ) : Option Bytes → String
  | none => "NULL"
  | some bytes =>
    if codes.all (· == formatCodeBinary) then hexPreview bytes
    else if (codes.all (· == formatCodeText) || codes.isEmpty) || isPrintable bytes then quote bytes
    else hexPreview bytes

/-- The list `params` of `format_bind`. -/
def boundParams (b : Bind) : List String := b.parameters.map (boundParam b.parameterFormatCodes)

/-- The text around the rendered parameters. -/
def bindText (b : Bind) (params : List String) : String :=
  b.portalName.getD "<unnamed>" ++ "  <-  " ++ b.statementName.getD "<unnamed>" ++ "  params: ["
    ++ join ", " params ++ "]  result: " ++ formatFormatCodes b.resultColumnFormatCodes

theorem formatBind_eq (b : Bind) : formatBind b = bindText b (boundParams b) := rfl

/-- The format code of parameter `i`: text without codes, one code for all, or one each. -/
def parameterFormat : List ℤ → ℕ → Option ℤ
  | [], _ => some formatCodeText
  | [code], _ => some code
  | codes, i => codes[i]?

/-- Every parameter is rendered in its own format. -/
def InFormat (b : Bind) (params : List String) : Prop :=
  ∀ i : ℕ, (b.parameters[i]? = some none → params[i]? = some "NULL") ∧
    ∀ bytes, b.parameters[i]? = some (some bytes) →
      (parameterFormat b.parameterFormatCodes i = some formatCodeText → params[i]? = some (quote bytes)) ∧
      (parameterFormat b.parameterFormatCodes i = some formatCodeBinary →
        params[i]? = some (hexPreview bytes))

/-- A parameter that reads as text comes with format codes, and where its own is binary all are. -/
def FlagsDecide (b : Bind) : Prop :=
  ∀ (i : ℕ) (bytes : Bytes), b.parameters[i]? = some (some bytes) → isPrintable bytes = true →
    b.parameterFormatCodes ≠ [] ∧
      (parameterFormat b.parameterFormatCodes i = some formatCodeBinary →
        ∀ code ∈ b.parameterFormatCodes, code = formatCodeBinary)

/-! ### Text and hexadecimal digits -/

theorem digitChar_ne_quote {n : ℕ} (hn : n < 16) : Nat.digitChar n ≠ '\'' := by
  interval_cases n <;> decide

/-- The hexadecimal text of some bytes starts with a digit. -/
theorem hexPreview_head {b : Bytes} (hb : b ≠ []) :
    ∃ (c : Char) (rest : List Char), (hexPreview b).toList = c :: rest ∧ c ≠ '\'' := by
  obtain ⟨x, xs, rfl⟩ := List.exists_cons_of_ne_nil hb
  have hdigit : Nat.digitChar (x.toNat / 16) ≠ '\'' := by
    have := x.toNat_lt
    exact digitChar_ne_quote (by omega)
  have htake : ((x :: xs).take (min (x :: xs).length 48)).flatMap hexByte
      = Nat.digitChar (x.toNat / 16) :: Nat.digitChar (x.toNat % 16)
        :: (xs.take (min (x :: xs).length 48 - 1)).flatMap hexByte := by
    obtain ⟨n, hn⟩ : ∃ n, min (x :: xs).length 48 = n + 1 :=
      ⟨min (x :: xs).length 48 - 1, by rw [List.length_cons]; omega⟩
    rw [hn]
    rfl
  rw [hexPreview, htake]
  split
  · exact ⟨_, _, by simp [String.toList_append]; rfl, hdigit⟩
  · exact ⟨_, _, by simp; rfl, hdigit⟩

/-- **Quoted text is never hexadecimal text.** -/
theorem quote_eq_hexPreview_iff (b : Bytes) : quote b = hexPreview b ↔ isPrintable b = false := by
  cases hb : isPrintable b with
  | false => simp [quote, hb]
  | true =>
    have hne : b ≠ [] := by
      rintro rfl
      simp [isPrintable] at hb
    obtain ⟨c, rest, hhex, hc⟩ := hexPreview_head hne
    refine ⟨fun heq => absurd heq ?_, fun hf => by cases hf⟩
    intro heq
    have hlist := congrArg String.toList heq
    rw [hhex, quote, if_pos hb] at hlist
    simp at hlist
    exact hc hlist.1.symm

/-! ### The flags -/

/-- Apart from the flag for binary, every branch renders as `quote` does. -/
theorem boundParam_some (codes : List ℤ) (bytes : Bytes) :
    boundParam codes (some bytes)
      = if codes.all (· == formatCodeBinary) then hexPreview bytes else quote bytes := by
  rw [boundParam]
  split
  · rfl
  · split
    · rfl
    · rename_i hnot
      rw [Bool.not_eq_true, Bool.or_eq_false_iff] at hnot
      exact ((quote_eq_hexPreview_iff bytes).mpr hnot.2).symm

theorem boundParams_get (b : Bind) {i : ℕ} {p : Option Bytes} (hp : b.parameters[i]? = some p) :
    (boundParams b)[i]? = some (boundParam b.parameterFormatCodes p) := by
  rw [boundParams, List.getElem?_map, hp, Option.map_some]

/-- A code of the list applies to some parameter only where it stands in the list. -/
theorem parameterFormat_mem {codes : List ℤ} (hne : codes ≠ []) {i : ℕ} {code : ℤ}
    (h : parameterFormat codes i = some code) : code ∈ codes := by
  rw [parameterFormat.eq_def] at h
  split at h
  · exact absurd rfl hne
  · obtain rfl := Option.some.inj h
    exact List.mem_singleton.mpr rfl
  · exact List.mem_of_getElem? h

/-- **Parameters are rendered in their own format exactly when the flags decide as the codes do.** -/
theorem bind_in_format_iff (b : Bind) :
    formatBind b = bindText b (boundParams b) ∧ (InFormat b (boundParams b) ↔ FlagsDecide b) := by
  refine ⟨formatBind_eq b, ?_⟩
  constructor
  · intro h i bytes hp hprint
    have hshown := boundParams_get b hp
    rw [boundParam_some] at hshown
    obtain ⟨htext, hbinary⟩ := (h i).2 bytes hp
    have hdiffer : quote bytes ≠ hexPreview bytes := by
      rw [ne_eq, quote_eq_hexPreview_iff, hprint]
      decide
    constructor
    · intro hnil
      rw [hnil] at hshown htext
      have hquote := htext rfl
      rw [hshown] at hquote
      exact hdiffer (Option.some.inj hquote).symm
    · intro hcode
      have hhex := hbinary hcode
      rw [hshown] at hhex
      split at hhex
      · rename_i hall
        intro code hmem
        simpa using List.all_eq_true.mp hall code hmem
      · exact absurd (Option.some.inj hhex) hdiffer
  · intro h i
    constructor
    · intro hp
      exact boundParams_get b hp
    · intro bytes hp
      have hshown := boundParams_get b hp
      rw [boundParam_some] at hshown
      cases hprint : isPrintable bytes with
      | false =>
        -- both renderings agree
        have hsame := (quote_eq_hexPreview_iff bytes).mpr hprint
        rw [hsame, ite_self] at hshown
        rw [hsame]
        exact ⟨fun _ => hshown, fun _ => hshown⟩
      | true =>
        obtain ⟨hne, hall⟩ := h i bytes hp hprint
        constructor
        · intro hcode
          rw [hshown, if_neg]
          intro hbinary
          have hmem := parameterFormat_mem hne hcode
          exact absurd (List.all_eq_true.mp hbinary _ hmem) (by decide)
        · intro hcode
          rw [hshown, if_pos]
          rw [List.all_eq_true]
          intro code hmem
          rw [hall hcode code hmem]
          decide

/-- A Bind message without format codes: its one parameter is the text `abc`. -/
def textBind : Bind :=
  { portalName := none, statementName := none, parameterFormatCodes := []
    parameters := [some [97, 98, 99]], resultColumnFormatCodes := [] }

/-- **Text rendered as binary.**  Without codes both flags hold, and the binary one is asked first. -/
theorem bind_text_as_binary :
    formatBind textBind = "<unnamed>  <-  <unnamed>  params: [616263]  result: text" ∧
      ¬InFormat textBind (boundParams textBind) := by
  have hshown : boundParams textBind = ["616263"] := by decide
  refine ⟨by decide, ?_⟩
  intro h
  have hquote := ((h 0).2 [97, 98, 99] rfl).1 rfl
  rw [hshown] at hquote
  exact absurd hquote (by decide)

end Tapgres.Decode

import HomeEnergyManager.Lib.Words

/-! # The match of a URI with the template of a route

The server has a matcher of its own, for the one of the HTTP library honours a `*` only at the end
of a template. It reads the template and the URI with two indices, and accepts exactly the language
of the template.

Reference: `firmware/main/web_server.c`.
-/

namespace HomeEnergyManager.WebServer

/-- `'*'`. -/
def star : UInt8 := 42

/-- `'/'`. -/
def slash : UInt8 := 47

/-- The characters of a text. -/
def chars (text : String) : List UInt8 := text.toList.map Char.toUInt8

/-- `uri[ui]`, which fails outside the match length. -/
def uriAt (uri : List UInt8) (uriLen ui : ℕ) : Option UInt8 :=
  if ui < uriLen then uri[ui]? else none

/-- The loop that consumes a segment. -/
def skipSegment (uri : List UInt8) (uriLen ui : ℕ) : Option ℕ :=
  if ui < uriLen then do
    let c ← uriAt uri uriLen ui
    if c ≠ slash then skipSegment uri uriLen (ui + 1) else some ui
  else some ui
termination_by uriLen - ui

/-- The loop of `uri_match_segments`; `none` where it reads outside the template or the match
length. -/
def matchLoop (templ uri : List UInt8) (uriLen ti ui : ℕ) : Option Bool :=
  if ti < templ.length then do
    let t ← templ[ti]?
    if t = star then
      if ti = templ.length - 1 then some true
      else if uriLen ≤ ui then some false
      else do
        let c ← uriAt uri uriLen ui
        if c = slash then some false
        else do
          let ui ← skipSegment uri uriLen ui
          matchLoop templ uri uriLen (ti + 1) ui
    else if uriLen ≤ ui then some false
    else do
      let c ← uriAt uri uriLen ui
      if t ≠ c then some false else matchLoop templ uri uriLen (ti + 1) (ui + 1)
  else some (ui = uriLen)
termination_by templ.length - ti

/-- `uri_match_segments`, of the characters of a template and of a URI. -/
def uriMatchSegments (templ uri : List UInt8) (uriLen : ℕ) : Option Bool :=
  matchLoop templ uri uriLen 0 0

/-! ## The language of a template -/

/-- What a `*` consumes that is not the last. -/
def inSegment (c : UInt8) : Bool := c ≠ slash

/-- The texts that a template stands for. -/
def language : List UInt8 → Language UInt8
  | [] => 1
  | t :: templ =>
    if t ≠ star then Words.letter t * language templ
    else if templ = [] then ⊤
    else Words.run inSegment * language templ

/-- Each `*` is the last character or followed by `/`. -/
def WellFormed (templ : List UInt8) : Prop :=
  ∀ i < templ.length, templ[i]? = some star →
    i + 1 = templ.length ∨ templ[i + 1]? = some slash

instance (templ : List UInt8) : Decidable (WellFormed templ) :=
  inferInstanceAs (Decidable (∀ i < templ.length, _))

/-! ## The matcher on what is left of the texts -/

/-- What the loop decides from what is left of the template and of the URI. -/
def accepts : List UInt8 → List UInt8 → Bool
  | [], text => text.isEmpty
  | t :: templ, text =>
    if t = star then
      templ.isEmpty || (!(text.takeWhile inSegment).isEmpty &&
        accepts templ (text.dropWhile inSegment))
    else text.head? = some t && accepts templ text.tail

section Indices

variable {templ uri : List UInt8} {uriLen ti ui : ℕ}

/-- The index is within the URI, and the texts that are left begin with what it reads. -/
theorem uriAt_eq (hlen : uriLen ≤ uri.length) (hui : ui < uriLen) :
    ∃ c, uriAt uri uriLen ui = some c ∧
      (uri.take uriLen).drop ui = c :: (uri.take uriLen).drop (ui + 1) := by
  have hlt : ui < (uri.take uriLen).length := by
    rw [List.length_take]
    omega
  refine ⟨(uri.take uriLen)[ui], ?_, List.drop_eq_getElem_cons hlt⟩
  rw [uriAt, if_pos hui, List.getElem_take, List.getElem?_eq_getElem]

theorem drop_text_nil (hui : uriLen ≤ ui) : (uri.take uriLen).drop ui = [] :=
  List.drop_eq_nil_of_le ((List.length_take_le uriLen uri).trans hui)

/-- The inner loop leaves the text after the block. -/
theorem skipSegment_eq (hlen : uriLen ≤ uri.length) (hui : ui ≤ uriLen) :
    ∃ ui', skipSegment uri uriLen ui = some ui' ∧ ui' ≤ uriLen ∧
      (uri.take uriLen).drop ui' = ((uri.take uriLen).drop ui).dropWhile inSegment := by
  induction hgap : uriLen - ui generalizing ui with
  | zero =>
    have hend : ¬ ui < uriLen := by omega
    refine ⟨ui, ?_, hui, ?_⟩
    · rw [skipSegment, if_neg hend]
    · rw [drop_text_nil (not_lt.mp hend), List.dropWhile_nil]
  | succ gap ih =>
    have hlt : ui < uriLen := by omega
    obtain ⟨c, hread, htext⟩ := uriAt_eq hlen hlt
    rw [skipSegment, if_pos hlt, hread, htext]
    by_cases hc : c = slash
    · refine ⟨ui, ?_, hui, ?_⟩
      · simp [hc]
      · rw [htext, List.dropWhile_cons_of_neg (by simp [inSegment, hc])]
    · have hnext : ui + 1 ≤ uriLen := hlt
      obtain ⟨ui', hskip, hle, hdrop⟩ := ih hnext (by omega)
      refine ⟨ui', ?_, hle, ?_⟩
      · simpa [hc] using hskip
      · rw [hdrop, List.dropWhile_cons_of_pos (by simp [inSegment, hc])]

/-- The branch of a `*` that is not the last character. -/
theorem star_pass (hlen : uriLen ≤ uri.length) (hui : ui ≤ uriLen) {next : ℕ → Option Bool}
    (hnext : ∀ ui ≤ uriLen, next ui = some (accepts templ ((uri.take uriLen).drop ui))) :
    (if uriLen ≤ ui then some false
      else do
        let c ← uriAt uri uriLen ui
        if c = slash then some false
        else do
          let ui ← skipSegment uri uriLen ui
          next ui) =
      some (!(((uri.take uriLen).drop ui).takeWhile inSegment).isEmpty &&
        accepts templ (((uri.take uriLen).drop ui).dropWhile inSegment)) := by
  by_cases hout : uriLen ≤ ui
  · rw [if_pos hout, drop_text_nil hout]
    rfl
  · obtain ⟨c, hread, htext⟩ := uriAt_eq hlen (not_le.mp hout)
    rw [if_neg hout, hread]
    change (if c = slash then some false else _) = _
    by_cases hc : c = slash
    · rw [if_pos hc, htext, List.takeWhile_cons_of_neg (by simp [inSegment, hc])]
      rfl
    · obtain ⟨ui', hskip, hle, hdrop⟩ := skipSegment_eq hlen hui
      have hblock : (((uri.take uriLen).drop ui).takeWhile inSegment).isEmpty = false := by
        rw [htext, List.takeWhile_cons_of_pos (by simp [inSegment, hc])]
        rfl
      rw [if_neg hc, hskip, ← hdrop, hblock]
      exact hnext ui' hle

/-- The branch of another character. -/
theorem char_pass (hlen : uriLen ≤ uri.length) (t : UInt8) {next : Option Bool}
    (hnext : ui < uriLen → next = some (accepts templ ((uri.take uriLen).drop (ui + 1)))) :
    (if uriLen ≤ ui then some false
      else do
        let c ← uriAt uri uriLen ui
        if t ≠ c then some false else next) =
      some (decide (((uri.take uriLen).drop ui).head? = some t) &&
        accepts templ ((uri.take uriLen).drop ui).tail) := by
  by_cases hout : uriLen ≤ ui
  · rw [if_pos hout, drop_text_nil hout]
    rfl
  · obtain ⟨c, hread, htext⟩ := uriAt_eq hlen (not_le.mp hout)
    rw [if_neg hout, hread, htext, List.head?_cons, List.tail_cons]
    change (if t ≠ c then some false else next) = _
    by_cases hc : t = c
    · rw [if_neg (not_not.mpr hc), hnext (not_le.mp hout), hc, decide_eq_true rfl, Bool.true_and]
    · rw [if_pos hc, decide_eq_false fun h => hc (Option.some.inj h).symm, Bool.false_and]

/-- The loop reads nothing outside the texts, and decides as on what is left of them. -/
theorem matchLoop_eq (hlen : uriLen ≤ uri.length) (hti : ti ≤ templ.length) (hui : ui ≤ uriLen) :
    matchLoop templ uri uriLen ti ui =
      some (accepts (templ.drop ti) ((uri.take uriLen).drop ui)) := by
  induction hgap : templ.length - ti generalizing ti ui with
  | zero =>
    have hend : ¬ ti < templ.length := by omega
    have hdone : ((uri.take uriLen).drop ui).isEmpty = decide (ui = uriLen) := by
      rw [Bool.eq_iff_iff, List.isEmpty_iff, List.drop_eq_nil_iff, List.length_take_of_le hlen,
        decide_eq_true_iff]
      omega
    rw [matchLoop, if_neg hend, List.drop_eq_nil_of_le (not_lt.mp hend), accepts, hdone]
  | succ gap ih =>
    have hlt : ti < templ.length := by omega
    have ih : ∀ ui ≤ uriLen, matchLoop templ uri uriLen (ti + 1) ui =
        some (accepts (templ.drop (ti + 1)) ((uri.take uriLen).drop ui)) :=
      fun ui hui => ih (by omega) hui (by omega)
    rw [matchLoop, if_pos hlt, List.getElem?_eq_getElem hlt, List.drop_eq_getElem_cons hlt, accepts,
      Option.bind_eq_bind, Option.bind_some]
    generalize templ[ti] = t
    by_cases hstar : t = star
    · rw [if_pos hstar, if_pos hstar]
      by_cases hlast : ti = templ.length - 1
      · have hnil : templ.drop (ti + 1) = [] := List.drop_eq_nil_of_le (by omega)
        rw [if_pos hlast, hnil]
        rfl
      · have hne : (templ.drop (ti + 1)).isEmpty = false := by
          rw [List.isEmpty_eq_false_iff, Ne, List.drop_eq_nil_iff]
          omega
        rw [if_neg hlast, hne, Bool.false_or]
        exact star_pass hlen hui ih
    · rw [if_neg hstar, if_neg hstar]
      exact char_pass hlen t fun hin => ih (ui + 1) hin

end Indices

/-! ## What the matcher accepts -/

section Accepts

variable {templ text : List UInt8}

theorem WellFormed.tail {t : UInt8} (h : WellFormed (t :: templ)) : WellFormed templ := by
  intro i hi hstar
  have hnext := h (i + 1) (by simpa using hi) (by simpa using hstar)
  simpa using hnext

/-- A `/` follows a `*` that is not the last character. -/
theorem WellFormed.head (h : WellFormed (star :: templ)) (hne : templ ≠ []) :
    ∃ rest, templ = slash :: rest := by
  cases templ with
  | nil => exact absurd rfl hne
  | cons c rest =>
    have hslash : c = slash := by simpa using h 0 (by simp) rfl
    exact ⟨rest, by rw [hslash]⟩

/-- There a block of the text is what the `*` consumes. -/
theorem stops_language (h : WellFormed (star :: templ)) (hne : templ ≠ []) :
    Words.Stops inSegment (language templ) := by
  obtain ⟨rest, rfl⟩ := h.head hne
  rw [language, if_pos (by decide)]
  exact Words.stops_letter_mul (by decide)

theorem accepts_iff (h : WellFormed templ) : accepts templ text = true ↔ text ∈ language templ := by
  induction templ generalizing text with
  | nil => simp [accepts, language]
  | cons t templ ih =>
    rw [accepts, language]
    by_cases hstar : t = star
    · rw [if_pos hstar, if_neg (not_not.mpr hstar)]
      subst hstar
      by_cases hnil : templ = []
      · have hall : text ∈ (⊤ : Language UInt8) := trivial
        simp [hnil, hall]
      · rw [if_neg hnil, Words.mem_run_mul (stops_language h hnil), ← ih h.tail]
        simp [hnil]
    · rw [if_neg hstar, if_pos hstar]
      cases text with
      | nil => simp
      | cons c text => simp [ih h.tail, eq_comm (a := c)]

/-- Within the texts that it is given, `uri_match_segments` accepts the language of the template. -/
theorem uriMatchSegments_iff {uri : List UInt8} {uriLen : ℕ} (h : WellFormed templ)
    (hlen : uriLen ≤ uri.length) :
    ∃ accepted, uriMatchSegments templ uri uriLen = some accepted ∧
      (accepted = true ↔ uri.take uriLen ∈ language templ) :=
  ⟨_, matchLoop_eq hlen (Nat.zero_le _) (Nat.zero_le _), accepts_iff h⟩

theorem uriMatchSegments_interrogate :
    uriMatchSegments (chars "/api/devices/*/interrogate") (chars "/api/devices/17/interrogate?") 27
        = some true ∧
      ∃ accepted,
        uriMatchSegments (chars "/api/devices/*/interrogate") (chars "/api/devices/17/interrogate?")
            27 = some accepted ∧
          (accepted = true ↔ (chars "/api/devices/17/interrogate?").take 27 ∈
            language (chars "/api/devices/*/interrogate")) :=
  ⟨by decide +kernel, uriMatchSegments_iff (by decide +kernel) (by decide +kernel)⟩

/-- A segment is not empty. -/
example : uriMatchSegments (chars "/*/") (chars "//") 2 = some false := by decide +kernel

end Accepts

end HomeEnergyManager.WebServer

import HomeEnergyManager.Forecast.HourAlignment
import HomeEnergyManager.Lib.Json

/-! # The download of the solar forecast

The HTTP client hands the response over in pieces of its own choosing, which `http_event_handler`
puts into a buffer that grows. The text is parsed and the entries of one date go into the day's
hourly file. A write outside of the memory that is allocated, or a sum beyond `int`, is `none` here;
the parser is a parameter, and the characters of a key are bytes.

Reference: `firmware/main/solar_forecast.c`.
-/

namespace HomeEnergyManager.Forecast

open Civil Json
open NodePowerLogger (PowerRecord)

def INITIAL_BUF_CAP : ℕ := 4096

/-! ## The buffer -/

/-- `resp_buf_t`, with the memory behind `data` and how much of it is allocated. -/
structure RespBuf where
  data : ℕ → UInt8
  size : ℕ
  len : ℕ
  cap : ℕ

/-- What has been received. -/
def RespBuf.content (b : RespBuf) : List UInt8 := (List.range b.len).map b.data

/-- `memcpy` to the end of what is there. -/
def RespBuf.append (b : RespBuf) (chunk : List UInt8) : Option RespBuf :=
  if b.len + chunk.length ≤ b.size then
    some { b with
      data := fun i => if i < b.len then b.data i else (chunk[i - b.len]?).getD (b.data i)
      len := b.len + chunk.length }
  else none

/-- `http_event_handler` on a piece of the response: whether it returns `ESP_OK`, and the buffer.
`granted` tells whether `realloc` would find the memory. -/
def httpEventHandler (chunk : List UInt8) (granted : Bool) (b : RespBuf) :
    Option (Bool × RespBuf) :=
  if 2 ^ 31 ≤ b.len + chunk.length then none
  else if b.cap ≤ b.len + chunk.length then
    let newCap := b.cap * 2 + chunk.length
    if 2 ^ 31 ≤ newCap + 1 then none
    else if !granted then some (false, b)
    else ({ b with size := newCap + 1, cap := newCap }.append chunk).map fun b => (true, b)
  else (b.append chunk).map fun b => (true, b)

/-- The pieces of a response; the client goes on after an error of the handler. -/
def receiveResponse : List (List UInt8 × Bool) → RespBuf → Option RespBuf
  | [], b => some b
  | (chunk, granted) :: events, b =>
    (httpEventHandler chunk granted b).bind fun r => receiveResponse events r.2

/-- `buf` at the start; `junk` is what the memory holds. -/
def RespBuf.init (junk : ℕ → UInt8) : RespBuf where
  data := junk
  size := INITIAL_BUF_CAP + 1
  len := 0
  cap := INITIAL_BUF_CAP

/-! ## `solar_forecast_fetch` -/

/-- `valuedouble`. -/
def valuedouble (v : Value) : ℚ := v.asNum.getD 0

/-- The estimate that an entry of `watts` makes for a date. -/
def pointOf (target : DateStr) (entry : String × Value) : Option Estimate :=
  let key := entry.1.toList
  if key.length < 16 then none
  else if key.take 10 ≠ target.take 10 then none
  else some { time := some ((key.drop 11).take 5), watts := some (valuedouble entry.2) }

/-- The entries of `result.watts`. -/
def wattsOf (raw : Value) : List (String × Value) :=
  match (raw.member "result").bind (·.member "watts") with
  | some (.obj members) => members
  | _ => []

/-- `total_wh`. -/
def totalWhOf (target : DateStr) (raw : Value) : ℤ :=
  match (raw.member "result").bind (·.member "watt_hours_day") with
  | some (.obj members) =>
    ((Value.obj members).member (String.ofList target)).elim 0 fun v => truncate (valuedouble v)
  | _ => 0

/-- What the web page is given. -/
structure SolarForecast where
  date : DateStr
  estimates : List Estimate
  totalWh : ℤ

/-- `solar_forecast_fetch`: `performed` and `status` are what the client reports; an error leaves
the card alone. -/
def solarForecastFetch (parse : List UInt8 → Option Value) (junk : ℕ → UInt8)
    (events : List (List UInt8 × Bool)) (performed : Bool) (status : ℕ) (target : DateStr)
    (c : Card) : Option (Except Unit (SolarForecast × Card)) :=
  (receiveResponse events (.init junk)).bind fun b =>
    if !performed || status ≠ 200 then some (.error ())
    -- the byte after the text is set to zero
    else if b.size ≤ b.len then none
    else
      match parse (b.content.takeWhile (· ≠ 0)) with
      | none => some (.error ())
      | some raw =>
        let estimates := (wattsOf raw).filterMap (pointOf target)
        some (.ok ({ date := target, estimates, totalWh := totalWhOf target raw },
          saveHourlySolar target estimates c))

/-! ## The buffer holds what came -/

/-- The buffer holds `got`, has room for one byte more, and has not outgrown the `total` bytes that
were handed over. -/
structure RespBuf.Holds (b : RespBuf) (got : List UInt8) (total : ℕ) : Prop where
  content : b.content = got
  room : b.len < b.cap
  size : b.size = b.cap + 1
  bound : b.cap ≤ INITIAL_BUF_CAP + 3 * total
  le : b.len ≤ total

section Buffer

variable {b b' : RespBuf} {got chunk : List UInt8} {total : ℕ}

@[simp] theorem RespBuf.length_content : b.content.length = b.len := by simp [RespBuf.content]

theorem RespBuf.holds_init (junk : ℕ → UInt8) : (RespBuf.init junk).Holds [] 0 where
  content := rfl
  room := Nat.succ_pos _
  size := rfl
  bound := Nat.le_add_right _ _
  le := le_rfl

theorem RespBuf.append_eq (h : b.len + chunk.length ≤ b.size) :
    ∃ b', b.append chunk = some b' ∧ b'.content = b.content ++ chunk ∧
      b'.len = b.len + chunk.length ∧ b'.size = b.size ∧ b'.cap = b.cap := by
  refine ⟨_, if_pos h, ?_, rfl, rfl, rfl⟩
  apply List.ext_getElem
  · simp
  · intro i hi hi'
    simp only [RespBuf.content, List.getElem_map, List.getElem_range] at hi ⊢
    rw [List.length_append, RespBuf.length_content] at hi'
    by_cases hlt : i < b.len
    · rw [if_pos hlt, List.getElem_append_left (by simpa using hlt)]
      simp
    · have hlt' : i - b.len < chunk.length := by omega
      have hget : chunk[i - b.len]? = some (chunk[i - b.len]) := List.getElem?_eq_getElem hlt'
      rw [if_neg hlt, hget, Option.getD_some, List.getElem_append_right (by simpa using hlt)]
      simp

/-- One piece: no write is outside of the memory, and the piece is lost only where memory is. -/
theorem RespBuf.Holds.event (h : b.Holds got total) (granted : Bool)
    (hfits : 3 * (total + chunk.length) + INITIAL_BUF_CAP + 1 < 2 ^ 31) :
    ∃ ok b', httpEventHandler chunk granted b = some (ok, b') ∧ (granted = true → ok = true) ∧
      b'.Holds (if ok then got ++ chunk else got) (total + chunk.length) := by
  obtain ⟨hcontent, hroom, hsize, hbound, hle⟩ := h
  have hint : ¬ 2 ^ 31 ≤ b.len + chunk.length := by omega
  unfold httpEventHandler
  rw [if_neg hint]
  by_cases hgrow : b.cap ≤ b.len + chunk.length
  · have hnew : ¬ 2 ^ 31 ≤ b.cap * 2 + chunk.length + 1 := by omega
    rw [if_pos hgrow]
    dsimp only
    rw [if_neg hnew]
    cases granted with
    | false =>
      refine ⟨false, b, rfl, nofun, hcontent, hroom, hsize, by omega, by omega⟩
    | true =>
      have hmem : b.len + chunk.length ≤ b.cap * 2 + chunk.length + 1 := by omega
      obtain ⟨b', happend, hcontent', hlen', hsize', hcap'⟩ := RespBuf.append_eq
        (b := { b with size := b.cap * 2 + chunk.length + 1, cap := b.cap * 2 + chunk.length }) hmem
      refine ⟨true, b', by rw [happend]; rfl, fun _ => rfl, ?_, ?_, ?_, ?_, ?_⟩
      · rw [if_pos rfl, hcontent', ← hcontent]
        rfl
      all_goals
        dsimp only at hlen' hsize' hcap'
        omega
  · have hmem : b.len + chunk.length ≤ b.size := by omega
    rw [if_neg hgrow]
    obtain ⟨b', happend, hcontent', hlen', hsize', hcap'⟩ := RespBuf.append_eq hmem
    refine ⟨true, b', by rw [happend]; rfl, fun _ => rfl, ?_, ?_, ?_, ?_, ?_⟩
    · rw [if_pos rfl, hcontent', hcontent]
    all_goals omega

/-- The bytes of all the pieces. -/
def received (events : List (List UInt8 × Bool)) : List UInt8 := (events.map Prod.fst).flatten

theorem RespBuf.Holds.run (h : b.Holds got total) (events : List (List UInt8 × Bool))
    (hfits : 3 * (total + (received events).length) + INITIAL_BUF_CAP + 1 < 2 ^ 31) :
    ∃ b' got', receiveResponse events b = some b' ∧
      b'.Holds (got ++ got') (total + (received events).length) ∧
      got'.Sublist (received events) ∧
      ((∀ e ∈ events, e.2 = true) → got' = received events) := by
  induction events generalizing b got total with
  | nil => exact ⟨b, [], rfl, by simpa [received] using h, List.nil_sublist _, fun _ => rfl⟩
  | cons e events ih =>
    obtain ⟨chunk, granted⟩ := e
    have hcons : received ((chunk, granted) :: events) = chunk ++ received events := rfl
    rw [hcons, List.length_append] at hfits ⊢
    obtain ⟨ok, b₁, hstep, hok, hholds⟩ := h.event granted
      (show 3 * (total + chunk.length) + INITIAL_BUF_CAP + 1 < 2 ^ 31 by omega)
    obtain ⟨b', got', hrun, hholds', hsub, hall⟩ := ih hholds (by omega)
    rw [receiveResponse, hstep, Option.bind_some, hrun]
    cases ok with
    | false =>
      refine ⟨b', got', rfl, ?_, hsub.trans (List.sublist_append_right _ _), fun hgranted => ?_⟩
      · rwa [Nat.add_assoc] at hholds'
      · exact absurd (hok (hgranted _ List.mem_cons_self)) Bool.false_ne_true
    | true =>
      refine ⟨b', chunk ++ got', rfl, ?_, hsub.append_left chunk, fun hgranted => ?_⟩
      · rwa [Nat.add_assoc, if_pos rfl, List.append_assoc] at hholds'
      · rw [hall fun e he => hgranted e (List.mem_cons_of_mem _ he)]

theorem RespBuf.Holds.len_lt_size (h : b.Holds got total) : b.len < b.size := by
  have hroom := h.room
  have hsize := h.size
  omega

end Buffer

section File

variable {z h : ℤ} {entry : String × Value} {entries : List (String × Value)}

/-- The key has the date and a time of the hour. -/
def TimedAt (z h : ℤ) (entry : String × Value) : Prop :=
  16 ≤ entry.1.toList.length ∧ entry.1.toList.take 10 = dateStr z ∧
    ((entry.1.toList.drop 11).take 5).take 3 = twoDigits h ++ [':']

instance (z h : ℤ) : DecidablePred (TimedAt z h) := fun _ => inferInstanceAs (Decidable (_ ∧ _ ∧ _))

/-- The keys of the date are times of it. -/
def WellTimed (z : ℤ) (entries : List (String × Value)) : Prop :=
  ∀ entry ∈ entries, 16 ≤ entry.1.toList.length → entry.1.toList.take 10 = dateStr z →
    ∃ h : ℤ, (0 ≤ h ∧ h ≤ 23) ∧ TimedAt z h entry

/-- The milliwatts of the entries that are timed in an hour of the date. -/
def mwIn (entries : List (String × Value)) (z h : ℤ) : List ℤ :=
  (entries.filter (TimedAt z h ·)).map fun entry => truncate (valuedouble entry.2 * 1000)

theorem twoDigits_inj {h h' : ℤ} (hh : 0 ≤ h ∧ h ≤ 23) (hh' : 0 ≤ h' ∧ h' ≤ 23)
    (heq : twoDigits h ++ [':'] = twoDigits h' ++ [':']) : h = h' := by
  have hcolon : ∀ d ∈ [':'].head?, d.isDigit = false := by
    rintro d ⟨⟩
    rfl
  have hscan := scanInt_twoDigits (show 0 ≤ h ∧ h ≤ 99 by omega) hcolon
  rw [heq, scanInt_twoDigits (show 0 ≤ h' ∧ h' ≤ 99 by omega) hcolon] at hscan
  exact (congrArg Prod.fst (Option.some.inj hscan)).symm

theorem length_dateStr (z : ℤ) : (dateStr z).length = 10 := rfl

/-- The hour of an entry's estimate is that of its key. -/
theorem hourMw_pointOf (hh : 0 ≤ h ∧ h ≤ 23) (htimed : TimedAt z h entry) :
    (pointOf (dateStr z) entry).bind (·.hourMw) =
      some (h, truncate (valuedouble entry.2 * 1000)) := by
  obtain ⟨hlen, hdate, htime⟩ := htimed
  have hsplit : (entry.1.toList.drop 11).take 5 =
      twoDigits h ++ ':' :: ((entry.1.toList.drop 11).take 5).drop 3 := by
    conv_lhs => rw [← List.take_append_drop 3 ((entry.1.toList.drop 11).take 5), htime]
    rw [List.append_assoc, List.singleton_append]
  have hcolon : ∀ d ∈ (':' :: ((entry.1.toList.drop 11).take 5).drop 3).head?,
      d.isDigit = false := by
    rintro d ⟨⟩
    rfl
  have hscan := scanInt_twoDigits (show 0 ≤ h ∧ h ≤ 99 by omega) hcolon
  have htarget : (dateStr z).take 10 = dateStr z := List.take_of_length_le (length_dateStr z).le
  rw [← hsplit] at hscan
  have hpoint : pointOf (dateStr z) entry = some
      { time := some ((entry.1.toList.drop 11).take 5), watts := some (valuedouble entry.2) } := by
    unfold pointOf
    dsimp only
    rw [if_neg (not_lt.mpr hlen), htarget, if_neg (not_not.mpr hdate)]
  have hin : ¬ (h < 0 ∨ 23 < h) := by omega
  rw [hpoint, Option.bind_some, Estimate.hourMw]
  dsimp only
  rw [hscan, Option.map_some, Option.getD_some, if_neg hin]

/-- The estimates of an hour are the entries that are timed in it. -/
theorem filter_hourMw (hwell : WellTimed z entries) (hh : 0 ≤ h ∧ h ≤ 23) :
    (((entries.filterMap (pointOf (dateStr z))).filterMap (·.hourMw)).filter (·.1 = h)).map
      Prod.snd = mwIn entries z h := by
  rw [List.filterMap_filterMap]
  induction entries with
  | nil => rfl
  | cons entry entries ih =>
    obtain ⟨hentry, hentries⟩ := List.forall_mem_cons.mp hwell
    have ih := ih hentries
    rw [mwIn] at ih ⊢
    by_cases hdate : 16 ≤ entry.1.toList.length ∧ entry.1.toList.take 10 = dateStr z
    · obtain ⟨h', hh', htimed⟩ := hentry hdate.1 hdate.2
      rw [List.filterMap_cons, hourMw_pointOf hh' htimed, List.filter_cons, List.filter_cons]
      by_cases heq : h' = h
      · subst heq
        simp [ih, htimed]
      · have hnot : ¬ TimedAt z h entry := fun hother =>
          heq (twoDigits_inj hh' hh (htimed.2.2.symm.trans hother.2.2))
        simp [ih, heq, hnot]
    · have hnone : pointOf (dateStr z) entry = none := by
        have htarget : (dateStr z).take 10 = dateStr z :=
          List.take_of_length_le (length_dateStr z).le
        unfold pointOf
        dsimp only
        by_cases hlen : entry.1.toList.length < 16
        · exact if_pos hlen
        · rw [if_neg hlen, htarget]
          exact if_pos fun heq => hdate ⟨not_lt.mp hlen, heq⟩
      have hnot : ¬ TimedAt z h entry := fun htimed => hdate ⟨htimed.1, htimed.2.1⟩
      rw [List.filterMap_cons, hnone, Option.bind_none,
        List.filter_cons_of_neg (by simpa using hnot)]
      exact ih

/-- A response with a noon of the day and one of the next. -/
def twoNoons : Value :=
  .obj [("result", .obj [("watts", .obj [("2024-01-15 12:00:00", .num 1500),
    ("2024-01-16 12:00:00", .num 900)])])]

theorem wellTimed_twoNoons : WellTimed 19737 (wattsOf twoNoons) := by
  refine List.forall_mem_cons.mpr ⟨fun _ _ => ⟨12, by decide, by decide +kernel⟩,
    List.forall_mem_singleton.mpr fun _ hdate => ?_⟩
  have hother : "2024-01-16 12:00:00".toList.take 10 ≠ dateStr 19737 := by decide +kernel
  exact absurd hdate hother

end File

end HomeEnergyManager.Forecast

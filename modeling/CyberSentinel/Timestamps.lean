import CyberSentinel.CivilDates
import CyberSentinel.ReportedBlocks

/-!
# The stamps of events

An event's time is written as a date and a clock, always with six digits of a second, so that
whoever reads the log can rely on the width and sort the texts to have the events in the order they
occurred. Dates and clocks are those of the `time` crate, which is given by the date it has for each
day and by the hour, minute, second and microsecond it has for each microsecond of a day.
-/

namespace CyberSentinel

open FixedWidth CivilDates

def microsPerSecond : ℕ := 1000000
def microsPerMinute : ℕ := 60 * microsPerSecond
def microsPerHour : ℕ := 60 * microsPerMinute
def microsPerDay : ℕ := 24 * microsPerHour

structure Clock where
  hour : ℕ
  minute : ℕ
  second : ℕ
  microsecond : ℕ
  deriving DecidableEq, Repr

structure Clock.Shows (clock : Clock) (micros : ℕ) : Prop where
  sum : clock.hour * microsPerHour + (clock.minute * microsPerMinute +
    (clock.second * microsPerSecond + clock.microsecond)) = micros
  minute_lt : clock.minute < 60
  second_lt : clock.second < 60
  microsecond_lt : clock.microsecond < microsPerSecond

/-- The calendar of the crate. Later days have later dates, and up to the last second that has a
date these fit into their fields. -/
structure Calendar where
  date : ℕ → Date
  clock : ℕ → Clock
  later : StrictMono date
  fits : ∀ n, n * 86400 ≤ lastSecond →
    (date n).year ≤ 9999 ∧ (date n).month ≤ 12 ∧ (date n).day ≤ 31
  shows : ∀ micros < microsPerDay, (clock micros).Shows micros

/-- `hh:mm:ss.ffffffZ` -/
def Clock.text (clock : Clock) : List Char :=
  pad 2 clock.hour ++ ':' :: (pad 2 clock.minute ++ ':' ::
    (pad 2 clock.second ++ '.' :: (pad 6 clock.microsecond ++ ['Z'])))

/-- `{:02}.{:06}Z`, of the microseconds since the minute. -/
def secondText (micros : ℕ) : List Char :=
  pad 2 (micros / microsPerSecond) ++ '.' :: (pad 6 (micros % microsPerSecond) ++ ['Z'])

def minuteText (micros : ℕ) : List Char :=
  pad 2 (micros / microsPerMinute) ++ ':' :: secondText (micros % microsPerMinute)

def hourText (micros : ℕ) : List Char :=
  pad 2 (micros / microsPerHour) ++ ':' :: minuteText (micros % microsPerHour)

/-- What a clock shows is the quotients and rests of the microseconds. -/
theorem Clock.Shows.text_eq {clock : Clock} {micros : ℕ} (h : clock.Shows micros) :
    clock.text = hourText micros := by
  -- a number below a unit is left over, and lets the next unit fit
  have hparts {unit n rest : ℕ} (hrest : rest < unit) :
      (n * unit + rest) / unit = n ∧ (n * unit + rest) % unit = rest := by
    have hunit : 0 < unit := Nat.zero_lt_of_lt hrest
    rw [mul_comm, Nat.mul_add_div hunit, Nat.div_eq_of_lt hrest, Nat.add_zero, Nat.mul_add_mod,
      Nat.mod_eq_of_lt hrest]
    exact ⟨rfl, rfl⟩
  have hfits {unit n rest : ℕ} (hn : n < 60) (hrest : rest < unit) : n * unit + rest <
      60 * unit := by
    have hle := Nat.mul_le_mul_right unit (Nat.succ_le_of_lt hn)
    rw [Nat.succ_mul] at hle
    omega
  have hseconds : clock.second * microsPerSecond + clock.microsecond < microsPerMinute :=
    hfits h.second_lt h.microsecond_lt
  have hminutes : clock.minute * microsPerMinute +
      (clock.second * microsPerSecond + clock.microsecond) < microsPerHour :=
    hfits h.minute_lt hseconds
  have hmicro := h.microsecond_lt
  rw [hourText, ← h.sum, (hparts hminutes).1, (hparts hminutes).2, minuteText, (hparts hseconds).1,
    (hparts hseconds).2, secondText, (hparts hmicro).1, (hparts hmicro).2, text]

theorem ordered_secondText : Ordered {n | n < microsPerMinute} 10 secondText := by
  refine (ordered_pad 1).append (((ordered_pad 5).concat 'Z').cons '.') (fun n hn =>
    ?_) (fun n _ => ?_)
    (lt_iff_div_mod microsPerSecond)
  · have hseconds : n / microsPerSecond < 60 := Nat.div_lt_of_lt_mul (by rwa [mul_comm])
    exact hseconds.trans (by decide)
  · exact Nat.mod_lt n (by decide)

theorem ordered_minuteText : Ordered {n | n < microsPerHour} 13 minuteText := by
  refine (ordered_pad 1).append (ordered_secondText.cons ':') (fun n hn => ?_) (fun n _ => ?_)
    (lt_iff_div_mod microsPerMinute)
  · have hminutes : n / microsPerMinute < 60 := Nat.div_lt_of_lt_mul (by rwa [mul_comm])
    exact hminutes.trans (by decide)
  · exact Nat.mod_lt n (by decide)

theorem ordered_hourText : Ordered {n | n < microsPerDay} 16 hourText := by
  refine (ordered_pad 1).append (ordered_minuteText.cons ':') (fun n hn => ?_) (fun n _ => ?_)
    (lt_iff_div_mod microsPerHour)
  · have hhours : n / microsPerHour < 24 := Nat.div_lt_of_lt_mul (by rwa [mul_comm])
    exact hhours.trans (by decide)
  · exact Nat.mod_lt n (by decide)

namespace Calendar

variable (C : Calendar)

/-- `YYYY-MM-DDThh:mm:ss.ffffffZ`, of the microseconds since the epoch. -/
def stampText (micros : ℕ) : List Char :=
  (C.date (micros / microsPerDay)).text ++ 'T' :: (C.clock (micros % microsPerDay)).text

def display (timestamp : Instant) : List Char := C.stampText (timestamp.toNat / 1000)

theorem ordered_clock : Ordered {n | n < microsPerDay} 16 fun micros => (C.clock micros).text :=
  ordered_hourText.congr fun micros hmicros => (C.shows micros hmicros).text_eq

theorem ordered_stampText : Ordered {n | n / microsPerSecond ≤ lastSecond} 27 C.stampText := by
  refine Date.ordered_text.append (C.ordered_clock.cons 'T') (fun n hn => ?_) (fun n _ => ?_)
    fun n m => ?_
  · refine C.fits _ (le_trans ?_ hn)
    rw [Nat.le_div_iff_mul_le (by decide), mul_assoc]
    exact Nat.div_mul_le_self n microsPerDay
  · exact Nat.mod_lt n (by decide)
  · rw [C.later.lt_iff_lt, C.later.injective.eq_iff]
    exact lt_iff_div_mod microsPerDay n m

end Calendar

/-- A timestamp is a whole number of microseconds of a second that has a date. -/
theorem toTimestamp_eq (time : Instant) : ∃ micros : ℕ, toTimestamp time = (micros * 1000 : ℕ) ∧
    micros / microsPerSecond ≤ lastSecond := by
  simp only [toTimestamp]
  split_ifs with hdate
  · refine ⟨elapsed time 0 / 1000, rfl, ?_⟩
    rw [Nat.div_div_eq_div_mul]
    exact hdate
  · exact ⟨0, rfl, Nat.zero_le _⟩

theorem Calendar.display_micros (C : Calendar) (micros : ℕ) :
    C.display ((micros * 1000 : ℕ) : Instant) = C.stampText micros := by
  rw [Calendar.display, Int.toNat_natCast, Nat.mul_div_cancel _ (by decide)]

/-- The timestamps of events are written in one width, and sort as texts as they do as instants. -/
theorem Calendar.ordered_display (C : Calendar) : Ordered (Set.range toTimestamp) 27 C.display := by
  refine ⟨?_, ?_⟩
  · rintro _ ⟨time, rfl⟩
    obtain ⟨micros, hmicros, hdate⟩ := toTimestamp_eq time
    rw [hmicros, C.display_micros]
    exact C.ordered_stampText.length micros hdate
  · rintro _ ⟨time, rfl⟩ _ ⟨time', rfl⟩
    obtain ⟨micros, hmicros, hdate⟩ := toTimestamp_eq time
    obtain ⟨micros', hmicros', hdate'⟩ := toTimestamp_eq time'
    rw [hmicros, hmicros', C.display_micros, C.display_micros,
      C.ordered_stampText.lt_iff micros hdate micros' hdate', Int.ofNat_lt]
    omega

/-- Of two instants the later one has the later timestamp, if it has a date. -/
theorem toTimestamp_mono {time time' : Instant} (h : time ≤ time')
    (hdate : elapsed time' 0 / nanosPerSecond ≤ lastSecond) :
    toTimestamp time ≤ toTimestamp time' := by
  have helapsed : elapsed time 0 ≤ elapsed time' 0 := Int.toNat_le_toNat (sub_le_sub_right h 0)
  have hearlier : elapsed time 0 / nanosPerSecond ≤ lastSecond :=
    (Nat.div_le_div_right helapsed).trans hdate
  simp only [toTimestamp]
  rw [if_pos hdate, if_pos hearlier]
  exact Int.ofNat_le.2 (Nat.mul_le_mul_right _ (Nat.div_le_div_right helapsed))

/-- What occurs later does not sort before what occurred earlier, if it has a date. -/
theorem Calendar.display_mono (C : Calendar) {time time' : Instant} (h : time ≤ time')
    (hdate : elapsed time' 0 / nanosPerSecond ≤ lastSecond) :
    C.display (toTimestamp time) ≤ C.display (toTimestamp time') := by
  refine not_lt.1 fun hbefore => ?_
  have hearlier := (C.ordered_display.lt_iff _ ⟨time', rfl⟩ _ ⟨time, rfl⟩).1 hbefore
  exact not_lt.2 (toTimestamp_mono h hdate) hearlier

def SensorEvent.Stamped (event : SensorEvent) : Prop := event.timestamp ∈ Set.range toTimestamp

theorem EndedFlow.event_stamped (ended : EndedFlow) : ended.event.Stamped :=
  ⟨ended.flow.lastSeen, rfl⟩

theorem anomalyEvent_stamped (interface : String) (packet : RawPacket)
    (decoded : Decode.DecodedFrame)
    (flowId : Option UInt64) : (anomalyEvent interface packet decoded flowId).Stamped :=
  ⟨packet.timestamp, rfl⟩

namespace Sensor

variable {R : Detect.Regex} {A : Detect.AhoCorasick} {T : Detect.TextRegex}

theorem correlate_stamped (s : Sensor R A T) (domain : Correlation.Domain)
    (eventType : Correlation.EventKind) (sid : Option UInt32) (severity : UInt8) (summary : String)
    (timestamp : Instant) :
    ∀ event ∈ (s.correlate domain eventType sid severity summary timestamp).2,
      event.Stamped := by
  intro event hevent
  unfold correlate at hevent
  cases hcorrelator : s.correlator with
  | none =>
    rw [hcorrelator] at hevent
    exact absurd hevent List.not_mem_nil
  | some correlator =>
    rw [hcorrelator] at hevent
    obtain ⟨incident, -, rfl⟩ := List.mem_map.1 hevent
    exact ⟨timestamp, rfl⟩

/-- What one piece of work puts out is stamped, if the event that it may have ready is. -/
theorem work_stamped (s : Sensor R A T) (clocks : Clocks) {report : Report}
    (h : ∀ event, report = .event event → event.Stamped) :
    ∀ event ∈ (s.work clocks report).2, event.Stamped := by
  intro event hevent
  cases report with
  | alert flowId tuple timestamp record => exact absurd hevent List.not_mem_nil
  | resolved flowId tuple timestamp record action =>
    rw [List.mem_singleton.1 hevent]
    exact ⟨timestamp, rfl⟩
  | offer timestamp record => exact correlate_stamped s _ _ _ _ _ timestamp event hevent
  | event ready =>
    rw [List.mem_singleton.1 hevent]
    exact h ready rfl
  | overflow =>
    rw [List.mem_singleton.1 hevent]
    exact ⟨clocks.wall, rfl⟩
  | finding finding =>
    rcases List.mem_append.1 hevent with hevent | hevent
    · rcases List.mem_append.1 hevent with hevent | hevent
      · obtain ⟨record, -, rfl⟩ := List.mem_map.1 hevent
        exact ⟨clocks.wall, rfl⟩
      · exact correlate_stamped _ _ _ _ _ _ clocks.wall event hevent
    · rw [List.mem_singleton.1 hevent]
      exact ⟨clocks.wall, rfl⟩

theorem step_stamped (E : Decode.Etherparse) {s : Sensor R A T}
    (h : ∀ event, Report.event event ∈ s.pending → event.Stamped) (move : SensorMove) :
    ∀ event ∈ (s.step E move).2, event.Stamped := by
  intro event hevent
  cases move with
  | packet walks again sets interface packet =>
    simp only [step] at hevent
    split_ifs at hevent <;> exact absurd hevent List.not_mem_nil
  | flush order =>
    simp only [step] at hevent
    split_ifs at hevent <;> exact absurd hevent List.not_mem_nil
  | serviceHost batch =>
    simp only [step] at hevent
    split_ifs at hevent <;> exact absurd hevent List.not_mem_nil
  | beside move hmove => exact absurd hevent List.not_mem_nil
  | report clocks =>
    cases hpending : s.pending with
    | nil =>
      simp only [step, hpending] at hevent
      exact absurd hevent List.not_mem_nil
    | cons report rest =>
      simp only [step, hpending] at hevent
      refine work_stamped _ clocks (fun ready hready => h ready ?_) event hevent
      rw [hpending, hready]
      exact List.mem_cons_self

/-- Whatever the run, every event that is offered has the timestamp of an instant. -/
theorem run_stamped (E : Decode.Etherparse) {s : Sensor R A T} (hpending : s.pending = [])
    (moves : List SensorMove) : ∀ event ∈ (Runs.run (step E) s moves).2.flatten, event.Stamped := by
  have hready : ∀ event, Report.event event ∈ s.pending → event.Stamped := by
    rw [hpending]
    exact fun event hevent => absurd hevent List.not_mem_nil
  clear hpending
  induction moves generalizing s with
  | nil => exact fun event hevent => absurd hevent List.not_mem_nil
  | cons move rest ih =>
    intro event hevent
    rw [Runs.run_cons, List.flatten_cons] at hevent
    rcases List.mem_append.1 hevent with hevent | hevent
    · exact step_stamped E hready move event hevent
    · exact ih (step_readyMade EndedFlow.event_stamped anomalyEvent_stamped E hready move)
        event hevent

/-- Whatever is captured, found and reported in whatever order: the stamps of the events offered to
the log all have 27 characters, and they sort as the events' timestamps do. Of two instants that
have a date the later one does not sort before the earlier one. -/
theorem stamps_sort (C : Calendar) (E : Decode.Etherparse) (name : String)
    (options : PipelineOptions)
    (detection : Detection R A T) (correlation : Option Correlation.CorrelationSettings)
    (prevention : Option (Prevent.PreventionSettings × List Prevent.Received))
    (moves : List SensorMove) :
    let s := start name options detection correlation prevention
    let events := (Runs.run (step E) s moves).2.flatten
    Ordered {t | ∃ event ∈ events, event.timestamp = t} 27 C.display ∧
      ∀ time time' : Instant, time ≤ time' → elapsed time' 0 / nanosPerSecond ≤ lastSecond →
        C.display (toTimestamp time) ≤ C.display (toTimestamp time') := by
  intro s events
  have hstamped : {t | ∃ event ∈ events, event.timestamp = t} ⊆ Set.range toTimestamp := by
    rintro _ ⟨event, hevent, rfl⟩
    exact run_stamped E rfl moves event hevent
  exact ⟨C.ordered_display.mono hstamped, fun time time' h hdate => C.display_mono h hdate⟩

end Sensor

/-- The Gregorian calendar, which has four digits for the year up to the last second, and a clock of
twenty-four hours. -/
def gregorianCalendar : Calendar where
  date := gregorian
  clock micros :=
    { hour := micros / microsPerHour
      minute := micros % microsPerHour / microsPerMinute
      second := micros % microsPerMinute / microsPerSecond
      microsecond := micros % microsPerSecond }
  later := gregorian_strictMono
  fits n hn := by
    apply gregorian_fits
    have hfirst : daysBeforeYear 1970 = 719162 := by decide
    have hlast : daysBeforeYear 10000 = 3652059 := by decide
    unfold lastSecond at hn
    omega
  shows micros _ := by
    refine ⟨?_, ?_, ?_, ?_⟩ <;> simp only [microsPerHour, microsPerMinute, microsPerSecond]
    · omega
    · omega
    · omega
    · omega

example : gregorianCalendar.display (toTimestamp 999999999) =
    "1970-01-01T00:00:00.999999Z".toList := by
  decide

end CyberSentinel

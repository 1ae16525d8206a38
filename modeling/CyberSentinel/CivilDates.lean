import CyberSentinel.FixedWidth

/-!
# Civil dates

Dates are ordered by year, month and day. In the Gregorian calendar each day has a next one, and the
days from one first of January to another are counted by the years between them.
-/

namespace CivilDates

open FixedWidth

abbrev Date := ℕ ×ₗ (ℕ ×ₗ ℕ)

namespace Date

def of (year month day : ℕ) : Date := toLex (year, toLex (month, day))

def year (d : Date) : ℕ := (ofLex d).1

def month (d : Date) : ℕ := (ofLex (ofLex d).2).1

def day (d : Date) : ℕ := (ofLex (ofLex d).2).2

@[simp] theorem year_of (y m d : ℕ) : (of y m d).year = y := rfl

@[simp] theorem month_of (y m d : ℕ) : (of y m d).month = m := rfl

@[simp] theorem day_of (y m d : ℕ) : (of y m d).day = d := rfl

theorem lt_iff (d d' : Date) : d < d' ↔ d.year < d'.year ∨ d.year = d'.year ∧
    (d.month < d'.month ∨ d.month = d'.month ∧ d.day < d'.day) := by
  rw [Prod.Lex.lt_iff, Prod.Lex.lt_iff]
  rfl

/-- `YYYY-MM-DD`. -/
def text (d : Date) : List Char := pad 4 d.year ++ '-' :: (pad 2 d.month ++ '-' :: pad 2 d.day)

theorem ordered_text : Ordered {d : Date | d.year ≤ 9999 ∧ d.month ≤ 12 ∧ d.day ≤ 31} 10 text := by
  have hmonth : Ordered {p : ℕ ×ₗ ℕ | (ofLex p).1 ≤ 12 ∧ (ofLex p).2 ≤ 31} 5
      (fun p => pad 2 (ofLex p).1 ++ '-' :: pad 2 (ofLex p).2) := by
    refine (ordered_pad 1).append ((ordered_pad 1).cons '-') (fun p hp => ?_) (fun p hp => ?_)
      fun p q => Prod.Lex.lt_iff
    · exact hp.1.trans_lt (by decide)
    · exact hp.2.trans_lt (by decide)
  refine (ordered_pad 3).append (hmonth.cons '-') (fun d hd => ?_) (fun d hd => hd.2)
    fun d d' => Prod.Lex.lt_iff
  exact hd.1.trans_lt (by decide)

end Date

def leapDay (year : ℕ) : ℕ := if 4 ∣ year ∧ (¬ 100 ∣ year ∨ 400 ∣ year) then 1 else 0

def monthLength (year : ℕ) : ℕ → ℕ
  | 2 => 28 + leapDay year
  | 4 | 6 | 9 | 11 => 30
  | _ => 31

def daysBeforeMonth (year : ℕ) : ℕ → ℕ
  | 0 | 1 => 0
  | month + 2 => daysBeforeMonth year (month + 1) + monthLength year (month + 1)

def daysBeforeYear (year : ℕ) : ℕ :=
  365 * (year - 1) + ((year - 1) / 4 - (year - 1) / 100 + (year - 1) / 400)

def Date.next (d : Date) : Date :=
  if d.day < monthLength d.year d.month then Date.of d.year d.month (d.day + 1)
  else if d.month < 12 then Date.of d.year (d.month + 1) 1
  else Date.of (d.year + 1) 1 1

def gregorian : ℕ → Date
  | 0 => Date.of 1970 1 1
  | n + 1 => (gregorian n).next

theorem Date.lt_next (d : Date) : d < d.next := by
  rw [Date.lt_iff, Date.next]
  split_ifs
  · exact Or.inr ⟨rfl, Or.inr ⟨rfl, Nat.lt_succ_self d.day⟩⟩
  · exact Or.inr ⟨rfl, Or.inl (Nat.lt_succ_self d.month)⟩
  · exact Or.inl (Nat.lt_succ_self d.year)

theorem gregorian_strictMono : StrictMono gregorian :=
  strictMono_nat_of_lt_succ fun n => (gregorian n).lt_next

theorem daysBeforeMonth_succ (year : ℕ) {month : ℕ} (h : 1 ≤ month) :
    daysBeforeMonth year (month + 1) = daysBeforeMonth year month + monthLength year month := by
  obtain ⟨m, rfl⟩ := Nat.exists_eq_add_of_le' h
  rfl

theorem daysBeforeMonth_thirteen (year : ℕ) : daysBeforeMonth year 13 = 365 + leapDay year := by
  simp only [daysBeforeMonth, monthLength]
  omega

theorem leapDay_add (n : ℕ) :
    (n + 1) / 4 + (n + 1) / 400 + n / 100 = n / 4 + n / 400 + (n + 1) / 100 + leapDay (n + 1) := by
  rw [Nat.succ_div, Nat.succ_div, Nat.succ_div, leapDay]
  generalize n / 4 = a, n / 100 = b, n / 400 = c
  by_cases hfour : 4 ∣ n + 1
  · by_cases hcentury : 100 ∣ n + 1
    · by_cases hfourth : 400 ∣ n + 1
      · rw [if_pos hfour, if_pos hfourth, if_pos hcentury, if_pos ⟨hfour, Or.inr hfourth⟩]
        omega
      · rw [if_pos hfour, if_neg hfourth, if_pos hcentury,
          if_neg fun h => h.2.elim (absurd hcentury) hfourth]
        omega
    · have hfourth : ¬ 400 ∣ n + 1 := fun h => hcentury (Dvd.dvd.trans (by decide) h)
      rw [if_pos hfour, if_neg hfourth, if_neg hcentury, if_pos ⟨hfour, Or.inl hcentury⟩]
      omega
  · have hcentury : ¬ 100 ∣ n + 1 := fun h => hfour (Dvd.dvd.trans (by decide) h)
    have hfourth : ¬ 400 ∣ n + 1 := fun h => hfour (Dvd.dvd.trans (by decide) h)
    rw [if_neg hfour, if_neg hfourth, if_neg hcentury, if_neg fun h => hfour h.1]
    omega

theorem daysBeforeYear_succ {year : ℕ} (h : 1 ≤ year) :
    daysBeforeYear (year + 1) = daysBeforeYear year + daysBeforeMonth year 13 := by
  obtain ⟨n, rfl⟩ := Nat.exists_eq_add_of_le' h
  have hleap := leapDay_add n
  have hbefore : n / 100 ≤ n / 4 := Nat.div_le_div_left (by decide) (by decide)
  have hafter : (n + 1) / 100 ≤ (n + 1) / 4 := Nat.div_le_div_left (by decide) (by decide)
  rw [daysBeforeMonth_thirteen, daysBeforeYear, daysBeforeYear, Nat.add_sub_cancel,
    Nat.add_sub_cancel]
  generalize leapDay (n + 1) = leap, (n + 1) / 4 = a', (n + 1) / 100 = b', (n + 1) / 400 = c' at *
  generalize n / 4 = a, n / 100 = b, n / 400 = c at *
  omega

theorem daysBeforeYear_mono {year year' : ℕ} (h : 1 ≤ year) (hle : year ≤ year') :
    daysBeforeYear year ≤ daysBeforeYear year' := by
  induction year', hle using Nat.le_induction with
  | base => exact le_rfl
  | succ k hk ih =>
    rw [daysBeforeYear_succ (h.trans hk)]
    exact ih.trans (Nat.le_add_right _ _)

theorem monthLength_le (year month : ℕ) : monthLength year month ≤ 31 := by
  have hleap : leapDay year ≤ 1 := by
    rw [leapDay]
    split_ifs
    · exact le_rfl
    · exact Nat.zero_le _
  unfold monthLength
  split
  · omega
  all_goals decide

/-- The date is one of the calendar, and the day since 1970 is its number. -/
structure Counts (n : ℕ) (d : Date) : Prop where
  year : 1 ≤ d.year
  month : 1 ≤ d.month ∧ d.month ≤ 12
  day : 1 ≤ d.day ∧ d.day ≤ monthLength d.year d.month
  count : n + daysBeforeYear 1970 + 1 =
    daysBeforeYear d.year + daysBeforeMonth d.year d.month + d.day

theorem Counts.next {n : ℕ} {d : Date} (h : Counts n d) : Counts (n + 1) d.next := by
  obtain ⟨hyear, ⟨hfirst, hlast⟩, ⟨-, hday⟩, hcount⟩ := h
  rw [Date.next]
  split_ifs with hmore hmonth
  · refine ⟨hyear, ⟨hfirst, hlast⟩, ⟨Nat.succ_pos _, hmore⟩, ?_⟩
    simp only [Date.year_of, Date.month_of, Date.day_of]
    omega
  · refine ⟨hyear, ⟨Nat.succ_pos _, hmonth⟩, ⟨le_rfl, ?_⟩, ?_⟩
    · simp only [Date.year_of, Date.month_of, Date.day_of]
      unfold monthLength
      split <;> omega
    · simp only [Date.year_of, Date.month_of, Date.day_of]
      rw [daysBeforeMonth_succ d.year hfirst]
      omega
  · refine ⟨Nat.le_succ_of_le hyear, ⟨le_rfl, (by decide : 1 ≤ 12)⟩,
      ⟨le_rfl, (by decide : 1 ≤ 31)⟩, ?_⟩
    simp only [Date.year_of, Date.month_of, Date.day_of]
    have htwelve : d.month = 12 := by omega
    rw [htwelve] at hcount hday hmore
    have hyears := daysBeforeYear_succ hyear
    rw [daysBeforeMonth_succ d.year (by decide : 1 ≤ 12)] at hyears
    have hnone : daysBeforeMonth (d.year + 1) 1 = 0 := rfl
    omega

theorem gregorian_counts (n : ℕ) : Counts n (gregorian n) := by
  induction n with
  | zero => exact ⟨(by decide : 1 ≤ 1970), ⟨le_rfl, by decide⟩, ⟨le_rfl, by decide⟩, by decide⟩
  | succ n ih => exact ih.next

/-- Up to the year 9999 the dates have four digits for the year and two for the month and the day.
-/
theorem gregorian_fits {n : ℕ} (h : n + daysBeforeYear 1970 < daysBeforeYear 10000) :
    (gregorian n).year ≤ 9999 ∧ (gregorian n).month ≤ 12 ∧ (gregorian n).day ≤ 31 := by
  obtain ⟨-, ⟨-, hmonth⟩, ⟨hfirst, hday⟩, hcount⟩ := gregorian_counts n
  refine ⟨?_, hmonth, hday.trans (monthLength_le _ _)⟩
  by_contra hlater
  have hbefore : daysBeforeYear 10000 ≤ daysBeforeYear (gregorian n).year :=
    daysBeforeYear_mono (by decide) (not_le.1 hlater)
  omega

end CivilDates

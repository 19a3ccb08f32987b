import Rut.Http.Grammar
import Rut.HttpCache.Policy
import Rut.Lib.Calendar

/-!
# Dates in responses

`http_date` reads an IMF-fixdate and nothing else. The texts it accepts are those of the seconds since 1970 in the order
in which the calendar has them, up to the year 9999, whose day of the week is the right one; the value is the number of
the second.
-/

namespace Rut.HttpCache

open Http Lib.Calendar

/-! ## The texts -/

def digitText : Nat → Nat → Str
  | 0, _ => []
  | count + 1, n => digitText count (n / 10) ++ [UInt8.ofNat ((ch '0').toNat + n % 10)]

structure DaySecond where
  hour : Nat
  minute : Nat
  second : Nat
  hour_lt : hour < 24
  minute_lt : minute < 60
  second_lt : second < 60

def DaySecond.seconds (t : DaySecond) : Nat := t.hour * 3600 + t.minute * 60 + t.second

def epoch : Date := newYear 1970

def weekdayAt : Nat → Fin 7
  | 0 => 4
  | n + 1 => weekdayAt n + 1

def dateText (weekday day month year hour minute second : Str) : Str :=
  weekday ++ ch ',' :: ch ' ' :: (day ++ ch ' ' :: (month ++ ch ' ' :: (year ++ ch ' ' :: (hour ++ ch ':' ::
    (minute ++ ch ':' :: (second ++ ch ' ' :: word ['G','M','T']))))))

def imfFixdate (days : Nat) (t : DaySecond) : Str :=
  dateText (kWeekdays.getD (weekdayAt days) []) (digitText 2 (epoch.after days).day)
    (kMonths.getD (epoch.after days).month []) (digitText 4 (epoch.after days).year)
    (digitText 2 t.hour) (digitText 2 t.minute) (digitText 2 t.second)

/-! ## Digits -/

def IsDigit (c : UInt8) : Prop := ch '0' ≤ c ∧ c ≤ ch '9'

lemma length_digitText (count n : Nat) : (digitText count n).length = count := by
  induction count generalizing n with
  | zero => rfl
  | succ count ih => rw [digitText, List.length_append, ih, List.length_singleton]

lemma digitText_digits (count n : Nat) : ∀ c ∈ digitText count n, IsDigit c := by
  induction count generalizing n with
  | zero => exact fun c hc => absurd hc List.not_mem_nil
  | succ count ih =>
    intro c hc
    rw [digitText, List.mem_append] at hc
    rcases hc with hc | hc
    · exact ih _ c hc
    · cases List.mem_singleton.mp hc
      exact (digitByte (Nat.mod_lt n (by decide))).2

lemma decimalValue_digitText {count n} (h : n < 10 ^ count) : decimalValue 0 (digitText count n) = n := by
  induction count generalizing n with
  | zero =>
    exact (Nat.lt_one_iff.mp h).symm
  | succ count ih =>
    have hrest : n / 10 < 10 ^ count := by
      apply Nat.div_lt_of_lt_mul
      rwa [← pow_succ']
    rw [digitText, decimalValue_append, ih hrest]
    have hdigit := (digitByte (Nat.mod_lt n (show 0 < 10 by decide))).1
    calc 10 * (n / 10) + ((UInt8.ofNat ((ch '0').toNat + n % 10)).toNat - (ch '0').toNat)
        = 10 * (n / 10) + n % 10 := by rw [hdigit]
      _ = n := Nat.div_add_mod n 10

lemma digit_value {c} (h : IsDigit c) :
    c.toNat - (ch '0').toNat < 10 ∧ UInt8.ofNat ((ch '0').toNat + (c.toNat - (ch '0').toNat)) = c := by
  have hlow : (ch '0').toNat ≤ c.toNat := UInt8.le_iff_toNat_le.mp h.1
  have hhigh : c.toNat ≤ (ch '9').toNat := UInt8.le_iff_toNat_le.mp h.2
  have hwidth : (ch '9').toNat = (ch '0').toNat + 9 := by decide
  refine ⟨by omega, ?_⟩
  rw [Nat.add_sub_cancel' hlow]
  exact UInt8.ofNat_toNat

lemma eq_digitText {s} (h : ∀ c ∈ s, IsDigit c) :
    decimalValue 0 s < 10 ^ s.length ∧ s = digitText s.length (decimalValue 0 s) := by
  induction s using List.reverseRecOn with
  | nil => exact ⟨Nat.one_pos, rfl⟩
  | append_singleton s c ih =>
    obtain ⟨hlt, heq⟩ := ih fun d hd => h d (List.mem_append_left _ hd)
    obtain ⟨hc, hdigit⟩ := digit_value (h c (List.mem_append_right _ (List.mem_singleton_self c)))
    have hvalue : decimalValue 0 (s ++ [c]) = 10 * decimalValue 0 s + (c.toNat - (ch '0').toNat) :=
      decimalValue_append 0 s [c]
    have hdiv : (10 * decimalValue 0 s + (c.toNat - (ch '0').toNat)) / 10 = decimalValue 0 s := by omega
    have hmod : (10 * decimalValue 0 s + (c.toNat - (ch '0').toNat)) % 10 = c.toNat - (ch '0').toNat := by omega
    rw [hvalue, List.length_append, List.length_singleton]
    constructor
    · rw [pow_succ]
      omega
    · rw [digitText, hdiv, hmod, hdigit, ← heq]

lemma dateNumber_iff {v start count n} (hlen : ((v.drop start).take count).length = count) :
    dateNumber v start count = some n ↔ (v.drop start).take count = digitText count n ∧ n < 10 ^ count := by
  have hall : (((v.drop start).take count).all fun c => ch '0' ≤ c && c ≤ ch '9') = true ↔
      ∀ c ∈ (v.drop start).take count, IsDigit c := by
    simp only [List.all_eq_true, Bool.and_eq_true, decide_eq_true_eq, IsDigit]
  rw [dateNumber]
  constructor
  · intro h
    by_cases hdigits : ∀ c ∈ (v.drop start).take count, IsDigit c
    · rw [if_pos (hall.mpr hdigits), Option.some_inj] at h
      obtain ⟨hlt, heq⟩ := eq_digitText hdigits
      rw [h, hlen] at hlt heq
      exact ⟨heq, hlt⟩
    · rw [if_neg (fun h' => hdigits (hall.mp h'))] at h
      cases h
  · rintro ⟨heq, hlt⟩
    rw [if_pos (hall.mpr (heq ▸ digitText_digits count n)), heq, decimalValue_digitText hlt]

/-! ## The parts of a text -/

lemma cons_drop {v : Str} {i c} (h : v.getD i 0 = c) (hlt : i < v.length) : c :: v.drop (i + 1) = v.drop i := by
  rw [List.drop_eq_getElem_cons hlt, ← h, List.getD_eq_getElem _ _ hlt]

lemma part_drop (v : Str) (i n : Nat) : (v.drop i).take n ++ v.drop (i + n) = v.drop i := by
  rw [← List.drop_drop, List.take_append_drop]

lemma dateText_of_shape {v} (h : dateShape v = true) :
    v.length = 29 ∧ v = dateText (v.take 3) ((v.drop 5).take 2) ((v.drop 8).take 3) ((v.drop 12).take 4)
      ((v.drop 17).take 2) ((v.drop 20).take 2) ((v.drop 23).take 2) := by
  simp only [dateShape, Bool.and_eq_true, beq_iff_eq] at h
  obtain ⟨⟨⟨⟨⟨⟨⟨⟨⟨hlen, h3⟩, h4⟩, h7⟩, h11⟩, h16⟩, h19⟩, h22⟩, h25⟩, hzone⟩ := h
  have hend : word ['G','M','T'] = v.drop 26 := by
    rw [← hzone, List.take_of_length_le]
    rw [List.length_drop, hlen]
  refine ⟨hlen, ?_⟩
  -- the parts are put together from the end
  rw [dateText, hend, cons_drop h25 (by omega), part_drop v 23 2, cons_drop h22 (by omega), part_drop v 20 2,
    cons_drop h19 (by omega), part_drop v 17 2, cons_drop h16 (by omega), part_drop v 12 4, cons_drop h11 (by omega),
    part_drop v 8 3, cons_drop h7 (by omega), part_drop v 5 2, cons_drop h4 (by omega), cons_drop h3 (by omega),
    List.take_append_drop]

/-- The parts of a text are where `http_date` looks for them. -/
lemma dateText_parts {w d m y h mi s} (hw : w.length = 3) (hd : d.length = 2) (hm : m.length = 3)
    (hy : y.length = 4) (hh : h.length = 2) (hmi : mi.length = 2) (hs : s.length = 2) :
    dateShape (dateText w d m y h mi s) = true ∧ (dateText w d m y h mi s).take 3 = w ∧
      ((dateText w d m y h mi s).drop 5).take 2 = d ∧ ((dateText w d m y h mi s).drop 8).take 3 = m ∧
      ((dateText w d m y h mi s).drop 12).take 4 = y ∧ ((dateText w d m y h mi s).drop 17).take 2 = h ∧
      ((dateText w d m y h mi s).drop 20).take 2 = mi ∧ ((dateText w d m y h mi s).drop 23).take 2 = s := by
  obtain ⟨w0, w1, w2, rfl⟩ := List.length_eq_three.mp hw
  obtain ⟨d0, d1, rfl⟩ := List.length_eq_two.mp hd
  obtain ⟨m0, m1, m2, rfl⟩ := List.length_eq_three.mp hm
  obtain ⟨h0, h1, rfl⟩ := List.length_eq_two.mp hh
  obtain ⟨mi0, mi1, rfl⟩ := List.length_eq_two.mp hmi
  obtain ⟨s0, s1, rfl⟩ := List.length_eq_two.mp hs
  obtain ⟨y0, y', rfl⟩ := List.exists_cons_of_length_eq_add_one hy
  obtain ⟨y1, y2, y3, rfl⟩ := List.length_eq_three.mp (Nat.succ.inj hy)
  refine ⟨?_, rfl, rfl, rfl, rfl, rfl, rfl, rfl⟩
  simp [dateShape, dateText, word, lit]

/-! ## Days -/

def leapYear (year : Nat) : Bool := year % 4 == 0 && (year % 100 != 0 || year % 400 == 0)

def daysBeforeYear (year : Nat) : Nat := (year - 1970) * 365 + leapYears (year - 1) - leapYears 1969

def daysBeforeMonth (year month : Nat) : Nat := ((List.range month).map (daysOfMonth (leapYear year))).sum

/-- The number of a date as `http_date` computes it. -/
def dayNumber (d : Date) : Nat := daysBeforeYear d.year + daysBeforeMonth d.year d.month + (d.day - 1)

lemma leapYear_iff (year : Nat) : leapYear year = true ↔ Leap year := by
  simp only [leapYear, Leap, Bool.and_eq_true, Bool.or_eq_true, beq_iff_eq, bne_iff_ne, Nat.dvd_iff_mod_eq_zero]
  omega

lemma daysOfMonth_eq (year : Nat) {month} (h : month < 12) :
    daysOfMonth (leapYear year) month = monthLength year month := by
  have hfebruary : monthLength year 1 = if leapYear year then 29 else 28 := by
    simp only [monthLength, leapYear_iff]
  cases hleap : leapYear year
  all_goals
    rw [hleap] at hfebruary
    interval_cases month <;> first | rfl | exact hfebruary.symm

lemma daysBeforeMonth_succ (year : Nat) {month} (h : month < 12) :
    daysBeforeMonth year (month + 1) = daysBeforeMonth year month + monthLength year month := by
  rw [daysBeforeMonth, List.range_succ, List.map_append, List.sum_append, List.map_singleton, List.sum_singleton,
    daysOfMonth_eq year h]
  rfl

lemma daysBeforeMonth_year (year : Nat) : daysBeforeMonth year 12 = if leapYear year then 366 else 365 := by
  rw [daysBeforeMonth]
  cases leapYear year <;> rfl

lemma daysBeforeYear_succ {year} (h : 1970 ≤ year) :
    daysBeforeYear (year + 1) = daysBeforeYear year + daysBeforeMonth year 12 := by
  have hleaps : leapYears year = leapYears (year - 1) + if leapYear year then 1 else 0 := by
    simp only [leapYear_iff]
    have hsucc := leaps_succ (year - 1)
    rwa [Nat.sub_add_cancel (by omega)] at hsucc
  have hstart : leapYears 1969 ≤ leapYears (year - 1) := by
    simp only [leapYears]
    omega
  rw [daysBeforeYear, daysBeforeYear, daysBeforeMonth_year, Nat.add_sub_cancel, hleaps]
  split_ifs <;> omega

lemma dayNumber_tomorrow (d : Date) (h : epoch.year ≤ d.year) : dayNumber d.tomorrow = dayNumber d + 1 := by
  have hpos := d.day_pos
  have hle := d.day_le
  unfold Date.tomorrow
  split_ifs with hday hmonth
  · simp only [dayNumber]
    omega
  · have hsucc := daysBeforeMonth_succ d.year d.month_lt
    simp only [dayNumber, firstOf]
    omega
  · have hlast : d.month + 1 = 12 := by
      have := d.month_lt
      omega
    have hsucc := daysBeforeMonth_succ d.year d.month_lt
    have hyear := daysBeforeYear_succ (show 1970 ≤ d.year from h)
    have hfirst : daysBeforeMonth (d.year + 1) 0 = 0 := rfl
    rw [hlast] at hsucc
    simp only [dayNumber, newYear, firstOf]
    omega

lemma dayNumber_after (days : Nat) : dayNumber (epoch.after days) = days :=
  Date.count_after (by decide) dayNumber_tomorrow days

lemma weekdayAt_val (days : Nat) : (weekdayAt days).val = (days + 4) % 7 := by
  induction days with
  | zero => rfl
  | succ days ih =>
    rw [weekdayAt, Fin.val_add, ih]
    omega

/-! ## Reading a date -/

def dateMonth (v : Str) : Nat := kMonths.findIdx (· == (v.drop 8).take 3)

/-- What `http_date` checks of the numbers of a text. -/
structure DateChecked (v : Str) (day year hour minute second : Nat) : Prop where
  day_eq : dateNumber v 5 2 = some day
  year_eq : dateNumber v 12 4 = some year
  hour_eq : dateNumber v 17 2 = some hour
  minute_eq : dateNumber v 20 2 = some minute
  second_eq : dateNumber v 23 2 = some second
  year_ge : 1970 ≤ year
  hour_lt : hour < 24
  minute_lt : minute < 60
  second_lt : second < 60
  month_lt : dateMonth v < 12
  day_pos : 0 < day
  day_le : day ≤ monthLength year (dateMonth v)

variable {v : Str} {day year hour minute second seconds : Nat}

def DateChecked.date (h : DateChecked v day year hour minute second) : Date :=
  ⟨year, dateMonth v, day, h.month_lt, h.day_pos, h.day_le⟩

lemma dateMonth_le (v : Str) : dateMonth v ≤ 12 := List.findIdx_le_length

lemma DateChecked.value (hshape : dateShape v = true) (h : DateChecked v day year hour minute second) :
    httpDate v = if v.take 3 = kWeekdays.getD ((dayNumber h.date + 4) % 7) [] then
      some (dayNumber h.date * 86400 + hour * 3600 + minute * 60 + second) else none := by
  have hle : day ≤ daysOfMonth (leapYear year) (dateMonth v) := by
    rw [daysOfMonth_eq year h.month_lt]
    exact h.day_le
  have hyear := h.year_ge
  have hhour := h.hour_lt
  have hminute := h.minute_lt
  have hsecond := h.second_lt
  have hmonth := h.month_lt
  have hday := h.day_pos
  have hchecks : ¬ (year < 1970 ∨ hour > 23 ∨ minute > 59 ∨ second > 59 ∨ dateMonth v = 12 ∨ day = 0 ∨
      day > daysOfMonth (leapYear year) (dateMonth v)) := by omega
  rw [httpDate, if_neg (by simp [hshape]), h.day_eq, h.year_eq, h.hour_eq, h.minute_eq, h.second_eq]
  refine (if_neg hchecks).trans ?_
  rw [ite_not]
  rfl

lemma dateChecked_of_some (h : httpDate v = some seconds) :
    dateShape v = true ∧ ∃ day year hour minute second, DateChecked v day year hour minute second := by
  unfold httpDate at h
  split_ifs at h with hshape
  split at h
  case h_2 => cases h
  case h_1 day year hour minute second hday hyear hhour hminute hsecond =>
    obtain ⟨-, h⟩ | ⟨hchecks, -⟩ := ite_eq_iff.mp h
    · cases h
    have hpassed : ¬ (year < 1970 ∨ hour > 23 ∨ minute > 59 ∨ second > 59 ∨ dateMonth v = 12 ∨ day = 0 ∨
        day > daysOfMonth (leapYear year) (dateMonth v)) := hchecks
    have hmonth : dateMonth v < 12 := by
      have hle := dateMonth_le v
      omega
    rw [daysOfMonth_eq year hmonth] at hpassed
    refine ⟨by simpa using hshape, day, year, hour, minute, second, hday, hyear, hhour, hminute, hsecond,
      ?_, ?_, ?_, ?_, hmonth, ?_, ?_⟩
    all_goals omega

lemma dateMonth_name (h : dateMonth v < 12) : (v.drop 8).take 3 = kMonths.getD (dateMonth v) [] := by
  have hfound := List.findIdx_getElem (w := h)
  rw [beq_iff_eq] at hfound
  rw [List.getD_eq_getElem _ _ h]
  exact hfound.symm

lemma month_of_name {month} (hmonth : month < 12) : kMonths.findIdx (· == kMonths.getD month []) = month := by
  have hall : ∀ month < 12, kMonths.findIdx (· == kMonths.getD month []) = month := by decide
  exact hall month hmonth

lemma length_month {month} (h : month < 12) : (kMonths.getD month []).length = 3 := by
  have hall : ∀ month < 12, (kMonths.getD month []).length = 3 := by decide
  exact hall month h

lemma length_weekday (w : Fin 7) : (kWeekdays.getD w []).length = 3 := by
  have hall : ∀ w : Fin 7, (kWeekdays.getD w []).length = 3 := by decide
  exact hall w

lemma dateChecked_imfFixdate {days} (hyear : (epoch.after days).year ≤ 9999) (t : DaySecond) :
    dateShape (imfFixdate days t) = true ∧ (imfFixdate days t).take 3 = kWeekdays.getD (weekdayAt days) [] ∧
      dateMonth (imfFixdate days t) = (epoch.after days).month ∧
      DateChecked (imfFixdate days t) (epoch.after days).day (epoch.after days).year t.hour t.minute t.second := by
  have hparts := dateText_parts (length_weekday (weekdayAt days)) (length_digitText 2 (epoch.after days).day)
    (length_month (epoch.after days).month_lt) (length_digitText 4 (epoch.after days).year)
    (length_digitText 2 t.hour) (length_digitText 2 t.minute) (length_digitText 2 t.second)
  rw [← imfFixdate] at hparts
  obtain ⟨hshape, hweekday, hday, hmonth, hyearText, hhour, hminute, hsecond⟩ := hparts
  have hnumber : ∀ {i count n}, ((imfFixdate days t).drop i).take count = digitText count n → n < 10 ^ count →
      dateNumber (imfFixdate days t) i count = some n := by
    intro i count n htext hlt
    refine (dateNumber_iff ?_).mpr ⟨htext, hlt⟩
    rw [htext, length_digitText]
  have hindex : dateMonth (imfFixdate days t) = (epoch.after days).month := by
    rw [dateMonth, hmonth]
    exact month_of_name (epoch.after days).month_lt
  have hdayLt := (epoch.after days).day_le.trans (monthLength_le _ _)
  have hhourLt := t.hour_lt
  have hminuteLt := t.minute_lt
  have hsecondLt := t.second_lt
  refine ⟨hshape, hweekday, hindex, hnumber hday ?_, hnumber hyearText ?_, hnumber hhour ?_, hnumber hminute ?_,
    hnumber hsecond ?_, epoch.after_year days, hhourLt, hminuteLt, hsecondLt, ?_, (epoch.after days).day_pos, ?_⟩
  case refine_6 =>
    rw [hindex]
    exact (epoch.after days).month_lt
  case refine_7 =>
    rw [hindex]
    exact (epoch.after days).day_le
  all_goals omega

/-- `http_date` accepts the texts of the seconds from 1970 to 9999 with their days of the week, and no others, and
returns the number of the second. -/
theorem http_date_exact (v : Str) (seconds : Nat) :
    httpDate v = some seconds ↔
      ∃ days t, (epoch.after days).year ≤ 9999 ∧ v = imfFixdate days t ∧ seconds = days * 86400 + t.seconds := by
  constructor
  · intro h
    obtain ⟨hshape, day, year, hour, minute, second, hc⟩ := dateChecked_of_some h
    obtain ⟨hlen, htext⟩ := dateText_of_shape hshape
    have hpart : ∀ i n, i + n ≤ 29 → ((v.drop i).take n).length = n := by
      intro i n hle
      rw [List.length_take, List.length_drop, hlen]
      omega
    obtain ⟨hday, -⟩ := (dateNumber_iff (hpart 5 2 (by decide))).mp hc.day_eq
    obtain ⟨hyear, hyearLt⟩ := (dateNumber_iff (hpart 12 4 (by decide))).mp hc.year_eq
    obtain ⟨hhour, -⟩ := (dateNumber_iff (hpart 17 2 (by decide))).mp hc.hour_eq
    obtain ⟨hminute, -⟩ := (dateNumber_iff (hpart 20 2 (by decide))).mp hc.minute_eq
    obtain ⟨hsecond, -⟩ := (dateNumber_iff (hpart 23 2 (by decide))).mp hc.second_eq
    -- the date of the text comes some day, and its number says when
    obtain ⟨days, hdays⟩ := Date.comes (d := hc.date) hc.year_ge
    have hafter : epoch.after days = hc.date := hdays
    have hnumber : dayNumber hc.date = days := by rw [← hafter, dayNumber_after]
    rw [hc.value hshape, hnumber] at h
    obtain ⟨hweekday, h⟩ | ⟨-, h⟩ := ite_eq_iff.mp h
    case inr => cases h
    refine ⟨days, ⟨hour, minute, second, hc.hour_lt, hc.minute_lt, hc.second_lt⟩, ?_, ?_, ?_⟩
    · rw [hafter]
      exact Nat.le_of_lt_succ hyearLt
    · rw [hweekday, hday, dateMonth_name hc.month_lt, hyear, hhour, hminute, hsecond] at htext
      rw [imfFixdate, weekdayAt_val, hafter]
      exact htext
    · cases h
      simp only [DaySecond.seconds]
      omega
  · rintro ⟨days, t, hyear, rfl, rfl⟩
    obtain ⟨hshape, hweekday, hmonth, hc⟩ := dateChecked_imfFixdate hyear t
    have hdate : hc.date = epoch.after days := Date.ext rfl hmonth rfl
    rw [hc.value hshape, hdate, dayNumber_after, if_pos]
    · rw [DaySecond.seconds, Nat.add_assoc, Nat.add_assoc, Nat.add_assoc]
    · rw [hweekday, weekdayAt_val]

end Rut.HttpCache

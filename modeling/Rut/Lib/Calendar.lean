import Mathlib.Algebra.Order.Ring.Nat
import Mathlib.Data.Fin.Basic
import Mathlib.Logic.Function.Iterate

/-!
# The Gregorian calendar

The dates of the proleptic Gregorian calendar and the date that follows each. A date is numbered by the days that lead
to it, so that a formula for this number is right if it goes up by one from each date to the next.
-/

namespace Rut.Lib.Calendar

def Leap (year : Nat) : Prop := 4 ∣ year ∧ (100 ∣ year → 400 ∣ year)

instance (year : Nat) : Decidable (Leap year) := inferInstanceAs (Decidable (_ ∧ _))

def monthLength (year : Nat) : Nat → Nat
  | 1 => if Leap year then 29 else 28
  | 3 | 5 | 8 | 10 => 30
  | _ => 31

/-- The leap years up to a year, counted by the multiples of 4, 100 and 400. -/
lemma leaps_succ (y : Nat) :
    (y + 1) / 4 - (y + 1) / 100 + (y + 1) / 400 = y / 4 - y / 100 + y / 400 + if Leap (y + 1) then 1 else 0 := by
  have hle : y / 100 ≤ y / 4 := Nat.div_le_div_left (by decide) (by decide)
  have h100 : 100 ∣ y + 1 → 4 ∣ y + 1 := Nat.dvd_trans (by decide)
  have h400 : 400 ∣ y + 1 → 100 ∣ y + 1 := Nat.dvd_trans (by decide)
  simp only [Nat.succ_div, Leap]
  by_cases d4 : 4 ∣ y + 1
  · by_cases d100 : 100 ∣ y + 1
    · by_cases d400 : 400 ∣ y + 1
      · simp only [d4, d100, d400, if_true, true_and, imp_self]
        omega
      · simp only [d4, d100, d400, if_true, if_false, true_and, forall_const]
        omega
    · simp only [d4, d100, mt h400 d100, if_true, if_false, true_and, false_imp_iff]
      omega
  · simp only [d4, mt h100 d4, mt (h100 ∘ h400) d4, if_false, false_and]
    omega

lemma monthLength_pos (year month : Nat) : 0 < monthLength year month := by
  unfold monthLength
  split
  · split_ifs <;> decide
  all_goals decide

lemma monthLength_le (year month : Nat) : monthLength year month ≤ 31 := by
  unfold monthLength
  split
  · split_ifs <;> decide
  all_goals decide

@[ext]
structure Date where
  year : Nat
  month : Nat
  day : Nat
  month_lt : month < 12
  day_pos : 0 < day
  day_le : day ≤ monthLength year month

def firstOf (year month : Nat) (h : month < 12) : Date := ⟨year, month, 1, h, Nat.one_pos, monthLength_pos year month⟩

def newYear (year : Nat) : Date := firstOf year 0 (by decide)

def Date.tomorrow (d : Date) : Date :=
  if h : d.day < monthLength d.year d.month then ⟨d.year, d.month, d.day + 1, d.month_lt, Nat.succ_pos _, h⟩
  else if h : d.month + 1 < 12 then firstOf d.year (d.month + 1) h
  else newYear (d.year + 1)

def Date.after (d : Date) (n : Nat) : Date := Date.tomorrow^[n] d

variable {d d' : Date}

lemma Date.after_succ (d : Date) (n : Nat) : d.after (n + 1) = (d.after n).tomorrow :=
  Function.iterate_succ_apply' _ _ _

lemma Date.after_add (d : Date) (m n : Nat) : (d.after m).after n = d.after (m + n) := by
  rw [Date.after, Date.after, Date.after, ← Function.iterate_add_apply, Nat.add_comm n m]

lemma Date.tomorrow_year (d : Date) : d.year ≤ d.tomorrow.year := by
  unfold Date.tomorrow
  split_ifs
  · exact le_refl _
  · exact le_refl _
  · exact Nat.le_succ _

lemma Date.after_year (d : Date) (n : Nat) : d.year ≤ (d.after n).year := by
  induction n with
  | zero => exact le_refl _
  | succ n ih =>
    rw [Date.after_succ]
    exact ih.trans (Date.tomorrow_year _)

lemma Date.count_after {f : Date → Nat} (hzero : f d = 0) (hstep : ∀ e : Date, d.year ≤ e.year → f e.tomorrow = f e + 1)
    (n : Nat) : f (d.after n) = n := by
  induction n with
  | zero => exact hzero
  | succ n ih => rw [Date.after_succ, hstep _ (d.after_year n), ih]

/-! ## Every date comes -/

def Date.Leads (d d' : Date) : Prop := ∃ n, d.after n = d'

lemma Date.Leads.refl (d : Date) : d.Leads d := ⟨0, rfl⟩

lemma Date.Leads.trans {d''} (h : d.Leads d') (h' : d'.Leads d'') : d.Leads d'' := by
  obtain ⟨m, rfl⟩ := h
  obtain ⟨n, rfl⟩ := h'
  exact ⟨m + n, (Date.after_add d m n).symm⟩

lemma Date.leads_tomorrow (d : Date) : d.Leads d.tomorrow := ⟨1, rfl⟩

lemma leads_day (year month : Nat) (hm : month < 12) (day : Nat) (hpos : 0 < day) (hle : day ≤ monthLength year month) :
    (firstOf year month hm).Leads ⟨year, month, day, hm, hpos, hle⟩ := by
  induction day, hpos using Nat.le_induction with
  | base => exact Date.Leads.refl _
  | succ day hpos ih =>
    have hbefore := ih (Nat.le_of_succ_le hle)
    have hnext := Date.leads_tomorrow ⟨year, month, day, hm, hpos, Nat.le_of_succ_le hle⟩
    rw [Date.tomorrow, dif_pos (show day < monthLength year month from hle)] at hnext
    exact hbefore.trans hnext

def lastOf (year month : Nat) (h : month < 12) : Date :=
  ⟨year, month, monthLength year month, h, monthLength_pos year month, le_refl _⟩

lemma leads_lastOf (year month : Nat) (hm : month < 12) : (firstOf year month hm).Leads (lastOf year month hm) :=
  leads_day year month hm _ _ (le_refl _)

lemma lastOf_tomorrow (year month : Nat) (h : month + 1 < 12) :
    (lastOf year month (Nat.lt_of_succ_lt h)).tomorrow = firstOf year (month + 1) h :=
  (dif_neg (lt_irrefl (monthLength year month))).trans (dif_pos h)

lemma leads_firstOf (year month : Nat) (hm : month < 12) : (newYear year).Leads (firstOf year month hm) := by
  induction month with
  | zero => exact Date.Leads.refl _
  | succ month ih =>
    have hlast := leads_lastOf year month (Nat.lt_of_succ_lt hm)
    have hnext := Date.leads_tomorrow (lastOf year month (Nat.lt_of_succ_lt hm))
    rw [lastOf_tomorrow year month hm] at hnext
    exact (ih _).trans (hlast.trans hnext)

lemma leads_newYear (year k : Nat) : (newYear year).Leads (newYear (year + k)) := by
  induction k with
  | zero => exact Date.Leads.refl _
  | succ k ih =>
    have hdec := (leads_firstOf (year + k) 11 (by decide)).trans (leads_lastOf (year + k) 11 (by decide))
    have hnext := Date.leads_tomorrow (lastOf (year + k) 11 (by decide))
    exact ih.trans (hdec.trans hnext)

lemma Date.comes {year} (h : year ≤ d.year) : (newYear year).Leads d := by
  have hyear := leads_newYear year (d.year - year)
  rw [Nat.add_sub_cancel' h] at hyear
  have hmonth := leads_firstOf d.year d.month d.month_lt
  exact hyear.trans (hmonth.trans (leads_day d.year d.month d.month_lt d.day d.day_pos d.day_le))

end Rut.Lib.Calendar

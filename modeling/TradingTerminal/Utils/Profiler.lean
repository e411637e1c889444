import TradingTerminal.Lib.UMap
import Mathlib.Algebra.BigOperators.Group.List.Basic
import Mathlib.Algebra.Ring.Int.Defs

/-!
# The profiler

`utils/profiler.hpp`: a `ScopedProfiler` starts the time of its name where it is made and stops it
where it goes out of scope, so that the scopes of a thread nest. There is one starting time for each
name, and a scope entered inside another one of its name replaces the outer one's. What is recorded
for a name is therefore no more than the time spent in its scopes, and it is that time exactly if no
scope of the name is entered inside another one later than the other (`recorded_iff`).
-/

namespace TradingTerminal

open Lib

/-- The statistics of a name. An instant counts the nanoseconds of the clock. -/
structure ProfileData where
  totalTimeNs : UInt64 := 0
  callCount : UInt64 := 0
  minTimeNs : UInt64 := .ofNat (2 ^ 64 - 1)
  maxTimeNs : UInt64 := 0
  lastStart : Int := 0
  deriving DecidableEq, Repr

/-- One more duration. -/
def ProfileData.add (d : ProfileData) (duration : UInt64) : ProfileData :=
  { d with
    totalTimeNs := d.totalTimeNs + duration
    callCount := d.callCount + 1
    minTimeNs := min d.minTimeNs duration
    maxTimeNs := max d.maxTimeNs duration }

/-- The profiles by name. -/
structure Profiler where
  profiles : UMap String ProfileData := ∅

/-- The scopes that are entered one after the other, each with the scopes entered inside it. -/
inductive Scopes where
  | nil
  | scope (name : String) (enter : Int) (inside : Scopes) (leave : Int) (rest : Scopes)
  deriving DecidableEq

namespace Profiler

def start (p : Profiler) (name : String) (now : Int) : Profiler :=
  { profiles := p.profiles.insert name { UMap.getD p.profiles name {} with lastStart := now } }

def stop (p : Profiler) (name : String) (now : Int) : Profiler :=
  match p.profiles.lookup name with
  | none => p
  | some d => { profiles := p.profiles.insert name (d.add (.ofInt (now - d.lastStart))) }

def getProfile (p : Profiler) (name : String) : ProfileData := UMap.getD p.profiles name {}

/-- The scopes run. -/
def runScopes (p : Profiler) : Scopes → Profiler
  | .nil => p
  | .scope name enter inside leave rest =>
    runScopes (((p.start name enter).runScopes inside).stop name leave) rest

end Profiler

namespace Scopes

/-- When the scopes of a name are entered. -/
def enters (name : String) : Scopes → List Int
  | nil => []
  | scope other enter inside _ rest =>
    (if other = name then [enter] else []) ++ enters name inside ++ enters name rest

/-- How long the scopes of a name last. -/
def lasting (name : String) : Scopes → List Int
  | nil => []
  | scope other enter inside leave rest =>
    lasting name inside ++ (if other = name then [leave - enter] else []) ++ lasting name rest

/-- What is measured of them: the time since one of that name was last entered. -/
def measured (name : String) : Scopes → List Int
  | nil => []
  | scope other enter inside leave rest =>
    measured name inside ++
      (if other = name then [leave - (enters name inside).getLastD enter] else []) ++
      measured name rest

/-- No scope of the name is entered inside another one later than the other. -/
def NotReentered (name : String) : Scopes → Prop
  | nil => True
  | scope other enter inside _ rest =>
    NotReentered name inside ∧ (other = name → ∀ e ∈ enters name inside, e = enter) ∧
      NotReentered name rest

/-- The clock does not go back between two instants. -/
def Timed : Int → Scopes → Int → Prop
  | before, nil, after => before ≤ after
  | before, scope _ enter inside leave rest, after =>
    before ≤ enter ∧ Timed enter inside leave ∧ Timed leave rest after

instance decidableTimed : ∀ (before : Int) (scopes : Scopes) (after : Int),
    Decidable (Timed before scopes after)
  | before, nil, after => inferInstanceAs (Decidable (before ≤ after))
  | before, scope _ enter inside leave rest, after =>
    have := decidableTimed enter inside leave
    have := decidableTimed leave rest after
    inferInstanceAs (Decidable (before ≤ enter ∧ Timed enter inside leave ∧ Timed leave rest after))

end Scopes

/-! ## What is recorded -/

/-- The data after durations have been recorded and a starting time been set. -/
def ProfileData.record (d : ProfileData) (durations : List Int) (lastStart : Int) : ProfileData where
  totalTimeNs := d.totalTimeNs + .ofInt durations.sum
  callCount := d.callCount + .ofNat durations.length
  minTimeNs := (durations.map UInt64.ofInt).foldl min d.minTimeNs
  maxTimeNs := (durations.map UInt64.ofInt).foldl max d.maxTimeNs
  lastStart := lastStart

theorem ProfileData.record_nil (d : ProfileData) (lastStart : Int) :
    d.record [] lastStart = { d with lastStart } := by
  simp [record]
  rfl

theorem ProfileData.record_record (d : ProfileData) (durations more : List Int)
    (lastStart later : Int) :
    (d.record durations lastStart).record more later = d.record (durations ++ more) later := by
  simp [record, UInt64.add_assoc]

theorem ProfileData.record_lastStart (d : ProfileData) (durations : List Int)
    (lastStart later : Int) :
    ({ d with lastStart } : ProfileData).record durations later = d.record durations later :=
  rfl

theorem ProfileData.add_eq (d : ProfileData) (duration : Int) :
    d.add (.ofInt duration) = d.record [duration] d.lastStart := by
  simp [record, add]

namespace Profiler

variable {p : Profiler} {name : String}

theorem getProfile_start (p : Profiler) (name other : String) (now : Int) :
    (p.start other now).getProfile name =
      if name = other then { p.getProfile name with lastStart := now } else p.getProfile name := by
  unfold getProfile start
  rw [UMap.getD_insert]
  split
  · next h => rw [h]
  · rfl

theorem getProfile_stop {other : String} (h : other ∈ p.profiles) (name : String) (now : Int) :
    (p.stop other now).getProfile name =
      if name = other then (p.getProfile name).add (.ofInt (now - (p.getProfile name).lastStart))
      else p.getProfile name := by
  obtain ⟨d, hd⟩ := Option.isSome_iff_exists.1 (AList.lookup_isSome.2 h)
  unfold getProfile stop
  rw [hd]
  dsimp only
  rw [UMap.getD_insert]
  split
  · next heq => rw [heq, UMap.getD, hd, Option.getD_some]
  · rfl

/-- A name that was started has a profile. -/
theorem mem_start (p : Profiler) (name : String) (now : Int) : name ∈ (p.start name now).profiles :=
  AList.mem_insert _ |>.2 (.inl rfl)

theorem mem_stop (h : name ∈ p.profiles) (other : String) (now : Int) :
    name ∈ (p.stop other now).profiles := by
  unfold stop
  split
  · exact h
  · exact AList.mem_insert _ |>.2 (.inr h)

theorem mem_runScopes (scopes : Scopes) (h : name ∈ p.profiles) :
    name ∈ (p.runScopes scopes).profiles := by
  induction scopes generalizing p with
  | nil => exact h
  | scope other enter inside leave rest ihInside ihRest =>
    have hstart : name ∈ (p.start other enter).profiles := AList.mem_insert _ |>.2 (.inr h)
    exact ihRest (mem_stop (ihInside hstart) other leave)

theorem getLastD_append (earlier later : List Int) (before : Int) :
    (earlier ++ later).getLastD before = later.getLastD (earlier.getLastD before) := by
  induction earlier generalizing before with
  | nil => rfl
  | cons e earlier ih => rw [List.cons_append, List.getLastD_cons, ih, List.getLastD_cons]

/-- Every scope records what is measured of it. -/
theorem getProfile_runScopes (p : Profiler) (name : String) (scopes : Scopes) :
    (p.runScopes scopes).getProfile name =
      (p.getProfile name).record (scopes.measured name)
        ((scopes.enters name).getLastD (p.getProfile name).lastStart) := by
  induction scopes generalizing p with
  | nil => exact ((p.getProfile name).record_nil _).symm
  | scope other enter inside leave rest ihInside ihRest =>
    have hmem : other ∈ ((p.start other enter).runScopes inside).profiles :=
      mem_runScopes inside (mem_start p other enter)
    rw [runScopes, ihRest, getProfile_stop hmem, ihInside, getProfile_start, Scopes.measured,
      Scopes.enters]
    by_cases hname : other = name
    · subst hname
      simp only [if_true]
      rw [ProfileData.record_lastStart, ProfileData.add_eq, ProfileData.record_record,
        ProfileData.record_record, getLastD_append, getLastD_append, List.append_assoc]
      rfl
    · simp only [hname, Ne.symm hname, if_false, List.append_nil, List.nil_append]
      rw [ProfileData.record_record, getLastD_append]
      rfl

end Profiler

/-! ## What is measured -/

namespace Scopes

variable {name : String} {before after : Int} {scopes : Scopes}

theorem Timed.le (h : Timed before scopes after) : before ≤ after := by
  induction scopes generalizing before after with
  | nil => exact h
  | scope other enter inside leave rest ihInside ihRest =>
    obtain ⟨henter, hinside, hrest⟩ := h
    exact henter.trans ((ihInside hinside).trans (ihRest hrest))

/-- Scopes are entered in the order of time. -/
theorem Timed.enters (h : Timed before scopes after) (name : String) :
    (scopes.enters name).Pairwise (· ≤ ·) ∧ ∀ e ∈ scopes.enters name, before ≤ e ∧ e ≤ after := by
  induction scopes generalizing before after with
  | nil => exact ⟨List.Pairwise.nil, by simp [Scopes.enters]⟩
  | scope other enter inside leave rest ihInside ihRest =>
    obtain ⟨henter, hinside, hrest⟩ := h
    obtain ⟨hsorted, hbounds⟩ := ihInside hinside
    obtain ⟨hsortedRest, hboundsRest⟩ := ihRest hrest
    have hleave := hinside.le
    have hafter := hrest.le
    have hhere : ((if other = name then [enter] else []) ++ inside.enters name).Pairwise (· ≤ ·) := by
      split
      · exact List.pairwise_cons.2 ⟨fun e he => (hbounds e he).1, hsorted⟩
      · exact hsorted
    have hwithin : ∀ e ∈ (if other = name then [enter] else []) ++ inside.enters name,
        enter ≤ e ∧ e ≤ leave := by
      intro e he
      rcases List.mem_append.1 he with he | he
      · split at he
        · rw [List.mem_singleton.1 he]
          exact ⟨le_refl _, hleave⟩
        · cases he
      · exact hbounds e he
    rw [Scopes.enters]
    constructor
    · refine List.pairwise_append.2 ⟨hhere, hsortedRest, fun e he e' he' => ?_⟩
      exact (hwithin e he).2.trans (hboundsRest e' he').1
    · intro e he
      rcases List.mem_append.1 he with he | he
      · have := hwithin e he
        omega
      · have := hboundsRest e he
        omega

/-- The last entry inside a scope is not before the scope, and it is the scope's own instant only if
all of them are. -/
theorem getLastD_enters (h : Timed before scopes after) (name : String) :
    before ≤ (scopes.enters name).getLastD before ∧ (scopes.enters name).getLastD before ≤ after ∧
      ((scopes.enters name).getLastD before = before ↔ ∀ e ∈ scopes.enters name, e = before) := by
  obtain ⟨hsorted, hbounds⟩ := h.enters name
  have hle := h.le
  cases hlast : (scopes.enters name).getLast? with
  | none =>
    rw [List.getLast?_eq_none_iff] at hlast
    simp [hlast, hle]
  | some last =>
    have hsplit := (List.dropLast_append_getLast? last hlast).symm
    have hmem := List.mem_of_getLast? hlast
    have hbefore : ∀ e ∈ scopes.enters name, e ≤ last := by
      intro e he
      rw [hsplit] at he hsorted
      rcases List.mem_append.1 he with he | he
      · exact (List.pairwise_append.1 hsorted).2.2 e he last (by simp)
      · rw [List.mem_singleton.1 he]
    rw [List.getLastD_eq_getLast?, hlast, Option.getD_some]
    refine ⟨(hbounds last hmem).1, (hbounds last hmem).2, fun heq e he => ?_,
      fun hall => hall last hmem⟩
    have := hbefore e he
    have := (hbounds e he).1
    omega

/-- What is measured against how long the scopes last. -/
theorem sum_measured (h : Timed before scopes after) (name : String) :
    0 ≤ (scopes.measured name).sum ∧
      (scopes.measured name).sum ≤ (scopes.lasting name).sum ∧
      ((scopes.measured name).sum = (scopes.lasting name).sum ↔ scopes.NotReentered name) := by
  induction scopes generalizing before after with
  | nil => simp [measured, lasting, NotReentered]
  | scope other enter inside leave rest ihInside ihRest =>
    obtain ⟨-, hinside, hrest⟩ := h
    obtain ⟨hpos, hle, hiff⟩ := ihInside hinside
    obtain ⟨hposRest, hleRest, hiffRest⟩ := ihRest hrest
    obtain ⟨hlow, hhigh, hhere⟩ := getLastD_enters hinside name
    rw [measured, lasting, NotReentered, ← hiff, ← hiffRest]
    by_cases hname : other = name
    · simp only [hname, if_true, List.sum_append, List.sum_singleton, true_implies, ← hhere]
      omega
    · simp only [hname, if_false, List.append_nil, List.sum_append, false_implies, true_and]
      omega

theorem length_measured (scopes : Scopes) (name : String) :
    (scopes.measured name).length = (scopes.lasting name).length := by
  induction scopes with
  | nil => rfl
  | scope other enter inside leave rest ihInside ihRest =>
    rw [measured, lasting]
    simp only [List.length_append, ihInside, ihRest]
    split <;> rfl

end Scopes

/-- **What the profiler records.** For any nesting of scopes on a clock that does not go back, and a
name whose scopes last less than 2^64 nanoseconds altogether: the profiler counts the scopes of the
name, the total it records is no more than the time spent in them, and it is that time if and only
if no scope of the name is entered inside another one later than the other. -/
theorem Profiler.recorded_iff (scopes : Scopes) {before after : Int}
    (htimed : scopes.Timed before after) (name : String)
    (hfits : (scopes.lasting name).sum < 2 ^ 64) :
    let d := (({} : Profiler).runScopes scopes).getProfile name
    d.callCount = .ofNat (scopes.lasting name).length ∧
      (d.totalTimeNs.toNat : Int) ≤ (scopes.lasting name).sum ∧
      ((d.totalTimeNs.toNat : Int) = (scopes.lasting name).sum ↔ scopes.NotReentered name) := by
  intro d
  obtain ⟨hpos, hle, hiff⟩ := Scopes.sum_measured htimed name
  have hd : d = ({} : ProfileData).record (scopes.measured name)
      ((scopes.enters name).getLastD 0) :=
    Profiler.getProfile_runScopes {} name scopes
  have htotal : (d.totalTimeNs.toNat : Int) = (scopes.measured name).sum := by
    have hsum : d.totalTimeNs = .ofInt (scopes.measured name).sum := by
      rw [hd]
      exact UInt64.zero_add _
    have hmod : (scopes.measured name).sum % 2 ^ 64 = (scopes.measured name).sum :=
      Int.emod_eq_of_lt hpos (by omega)
    have hsmall : (scopes.measured name).sum.toNat < 2 ^ 64 := by omega
    rw [hsum, UInt64.ofInt, hmod, UInt64.toNat_ofNat_of_lt' hsmall]
    omega
  rw [htotal]
  refine ⟨?_, hle, hiff⟩
  rw [hd, ← scopes.length_measured name]
  exact UInt64.zero_add _

/-- A function that calls itself, and one that calls another. -/
def recursion : Scopes :=
  .scope "f" 0 (.scope "f" 3 .nil 7 .nil) 10 (.scope "g" 10 (.scope "f" 11 .nil 12 .nil) 15 .nil)

/-- Of the 15 nanoseconds in `f` the profiler misses the three before it calls itself; in `g` it
misses none. -/
theorem recursion_recorded :
    let d name := (({} : Profiler).runScopes recursion).getProfile name
    (d "f").callCount = 3 ∧ ((d "f").totalTimeNs.toNat : Int) < 15 ∧
      ((d "g").totalTimeNs.toNat : Int) = 5 := by
  intro d
  have hf := Profiler.recorded_iff recursion (by decide : recursion.Timed 0 15) "f" (by decide)
  have hg := Profiler.recorded_iff recursion (by decide : recursion.Timed 0 15) "g" (by decide)
  have hreentered : ¬ recursion.NotReentered "f" := by
    simp [recursion, Scopes.NotReentered, Scopes.enters]
  refine ⟨hf.1, lt_of_le_of_ne hf.2.1 fun heq => hreentered (hf.2.2.1 heq), ?_⟩
  exact hg.2.2.2 (by simp [recursion, Scopes.NotReentered, Scopes.enters])

end TradingTerminal

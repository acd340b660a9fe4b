import CloudFS.Client.Names
import CloudFS.Machinery.CInt
import Mathlib.Data.List.Basic

/-!
# Mount/Arguments — the command line of a mount

`parse_arguments` goes through what `getopt_long` makes of the command line, one option after the
other, and the last of several options for a field decides it (`last_option_wins`).  The path of
the metadata directory is derived once, from the default path of the SSD: it follows the path of the
SSD exactly when that is still the default (`metadata_on_ssd_iff`).
-/

namespace CloudFS

open Posix

/-! ## Options -/

/-- What `getopt_long` makes of one option: which it is, and its argument. -/
inductive Opt
  | ssdPath (optarg : Name)
  | fusePath (optarg : Name)
  | hostname (optarg : Name)
  | ssdSize (optarg : Name)
  | threshold (optarg : Name)
  | noDedup
  | avgSegSize (optarg : Name)
  | rabinWindowSize (optarg : Name)
  | unknown
  deriving DecidableEq

/-- How the command line is refused: with the usage, or by a copy past the end of a field. -/
inductive ParseError
  | usageExit
  | outOfBounds
  deriving DecidableEq

/-- `MAX_PATH_LEN`. -/
def MAX_PATH_LEN : ℕ := 4096

/-- `MAX_HOSTNAME_LEN`. -/
def MAX_HOSTNAME_LEN : ℕ := 1024

/-- `isspace`. -/
def isSpace (c : Char) : Bool := c == ' ' || ('\t' ≤ c && c ≤ '\r')

/-- The number a text of decimal digits starts with. -/
def leadingNumber (s : Name) : ℕ :=
  (s.takeWhile Char.isDigit).foldl (fun n c => 10 * n + (c.toNat - '0'.toNat)) 0

/-- `atoi`, which stops at the bounds of a `long`. -/
def atoi (s : Name) : Int32 :=
  match s.dropWhile isSpace with
  | '-' :: s => Int32.ofInt (max (-leadingNumber s) (-2 ^ 31))
  | '+' :: s => Int32.ofInt (min (leadingNumber s) (2 ^ 31 - 1))
  | s => Int32.ofInt (min (leadingNumber s) (2 ^ 31 - 1))

/-- `strcpy` of an argument into a field of `size` bytes. -/
def strcpy (size : ℕ) (optarg : Name) : Except ParseError Name :=
  if optarg.length < size then .ok optarg else .error .outOfBounds

/-- The path of the SSD if no option gives another. -/
def defaultSsdPath : Name := "/home/student/mnt/ssd".toList

/-- The values `parse_arguments` starts from. -/
def defaultState : CloudfsState where
  ssdPath := defaultSsdPath
  fusePath := "/home/student/mnt/fuse".toList
  metadataPath := defaultSsdPath ++ "/.metadata".toList
  hostname := "localhost:8888".toList
  ssdSize := 1024 * 1024 * 1024
  threshold := 0
  avgSegSize := 4096
  rabinWindowSize := 48
  noDedup := false

/-- One turn of the loop of `parse_arguments`. -/
def parseOption (state : CloudfsState) : Opt → Except ParseError CloudfsState
  | .ssdPath optarg => (strcpy MAX_PATH_LEN optarg).map fun s => { state with ssdPath := s }
  | .fusePath optarg => (strcpy MAX_PATH_LEN optarg).map fun s => { state with fusePath := s }
  | .hostname optarg => (strcpy MAX_HOSTNAME_LEN optarg).map fun s => { state with hostname := s }
  | .ssdSize optarg => .ok { state with ssdSize := (atoi optarg * 1024).toInt }
  | .threshold optarg => .ok { state with threshold := (atoi optarg * 1024).toInt }
  | .noDedup => .ok { state with noDedup := true }
  | .avgSegSize optarg => .ok { state with avgSegSize := (atoi optarg * 1024).toInt }
  | .rabinWindowSize optarg => .ok { state with rabinWindowSize := (atoi optarg).toInt }
  | .unknown => .error .usageExit

/-- `parse_arguments`. -/
def parseArguments (opts : List Opt) : Except ParseError CloudfsState :=
  opts.foldlM parseOption defaultState

/-- The path a `-s` option gives. -/
def Opt.ssdPathArg : Opt → Option Name
  | .ssdPath optarg => some optarg
  | _ => none

/-- The text a `-t` option gives. -/
def Opt.thresholdArg : Opt → Option Name
  | .threshold optarg => some optarg
  | _ => none

/-! ## What the options decide -/

/-- **The last option for a field decides it**: a loop in which each turn sets a field to what its
option selects, or leaves it, ends with the last selection. -/
theorem last_option_wins {σ ε ο α : Type} {step : σ → ο → Except ε σ} (field : σ → α)
    (sel : ο → Option α) (hstep : ∀ s o s', step s o = .ok s' → field s' = (sel o).getD (field s))
    {opts : List ο} {s s' : σ} (h : opts.foldlM step s = .ok s') :
    field s' = ((opts.filterMap sel).getLast?).getD (field s) := by
  induction opts generalizing s with
  | nil =>
    obtain rfl := Except.ok.inj h
    rfl
  | cons o opts ih =>
    rw [List.foldlM_cons] at h
    cases ho : step s o with
    | error e =>
      rw [ho] at h
      cases h
    | ok s₁ =>
      rw [ho] at h
      rw [ih h, hstep s o s₁ ho]
      cases hsel : sel o with
      | none => rw [List.filterMap_cons_none hsel, Option.getD_none]
      | some a =>
        rw [List.filterMap_cons_some hsel, List.getLast?_cons, Option.getD_some, Option.getD_some]

variable {opts : List Opt} {st st' : CloudfsState}

theorem strcpy_map_eq_ok_iff {n : ℕ} {optarg : Name} {f : Name → CloudfsState} :
    (strcpy n optarg).map f = .ok st ↔ optarg.length < n ∧ f optarg = st := by
  rw [strcpy]
  split
  case isTrue h => simp [Except.map, h]
  case isFalse h => simp [Except.map, h]

/-- **One option**: it sets the field it is for, and never the path of the metadata directory. -/
theorem parseOption_spec {o : Opt} (h : parseOption st o = .ok st') :
    st'.ssdPath = o.ssdPathArg.getD st.ssdPath ∧ st'.metadataPath = st.metadataPath ∧
      st'.threshold
        = (o.thresholdArg.map fun t => (atoi t * 1024).toInt).getD st.threshold := by
  cases o with
  | ssdPath | fusePath | hostname =>
    obtain ⟨-, rfl⟩ := strcpy_map_eq_ok_iff.1 h
    exact ⟨rfl, rfl, rfl⟩
  | ssdSize | threshold | noDedup | avgSegSize | rabinWindowSize =>
    obtain rfl := Except.ok.inj h
    exact ⟨rfl, rfl, rfl⟩
  | unknown => cases h

/-- The path of the SSD is that of the last `-s` option. -/
theorem ssdPath_parseArguments (h : parseArguments opts = .ok st) :
    st.ssdPath = ((opts.filterMap Opt.ssdPathArg).getLast?).getD defaultSsdPath :=
  last_option_wins CloudfsState.ssdPath Opt.ssdPathArg (fun _ _ _ ho => (parseOption_spec ho).1) h

/-- The path of the metadata directory is that of the default SSD. -/
theorem metadataPath_parseArguments (h : parseArguments opts = .ok st) :
    st.metadataPath = defaultSsdPath ++ "/.metadata".toList := by
  have hlast := last_option_wins CloudfsState.metadataPath (fun _ => none)
    (fun _ _ _ ho => (parseOption_spec ho).2.1) h
  rwa [List.filterMap_none] at hlast

/-- The threshold is 1024 times what the last `-t` option gives, as an `int`. -/
theorem threshold_parseArguments (h : parseArguments opts = .ok st) :
    st.threshold
      = (((opts.filterMap Opt.thresholdArg).getLast?).map
          fun t => (atoi t * 1024).toInt).getD 0 := by
  have hlast := last_option_wins CloudfsState.threshold
    (fun o : Opt => o.thresholdArg.map fun t => (atoi t * 1024).toInt)
    (fun _ _ _ ho => (parseOption_spec ho).2.2) h
  rwa [← List.map_filterMap, List.getLast?_map] at hlast

/-! ## Where the metadata lies -/

/-- **The metadata of two mounts lies on their SSDs**: in `.metadata` under the path of each, so
that mounts with different SSDs share no metadata file. -/
structure MetadataOnSsd (st₁ st₂ : CloudfsState) : Prop where
  derived₁ : st₁.metadataPath = st₁.ssdPath ++ "/.metadata".toList
  derived₂ : st₂.metadataPath = st₂.ssdPath ++ "/.metadata".toList
  below₁ : ∀ p, getAbsolutePath st₁ ['/'] <+: getMetadataPath st₁ p
  below₂ : ∀ p, getAbsolutePath st₂ ['/'] <+: getMetadataPath st₂ p
  apart : st₁.ssdPath ≠ st₂.ssdPath → ∀ p q, getMetadataPath st₁ p ≠ getMetadataPath st₂ q

/-- No `-s` option is given, or the last one gives the default path. -/
def SsdPathDefault (opts : List Opt) : Prop :=
  ∀ s, (opts.filterMap Opt.ssdPathArg).getLast? = some s → s = defaultSsdPath

theorem ssdPathDefault_iff (h : parseArguments opts = .ok st) :
    SsdPathDefault opts ↔ st.metadataPath = st.ssdPath ++ "/.metadata".toList := by
  rw [metadataPath_parseArguments h, List.append_left_inj, ssdPath_parseArguments h,
    SsdPathDefault]
  cases (opts.filterMap Opt.ssdPathArg).getLast? with
  | none => simp
  | some s => simp [eq_comm]

/-- Metadata derived from the path of the SSD lies below it. -/
theorem below_of_derived (h : st.metadataPath = st.ssdPath ++ "/.metadata".toList) (p : Name) :
    getAbsolutePath st ['/'] <+: getMetadataPath st p := by
  rw [getMetadataPath, h, getAbsolutePath, List.append_assoc, List.append_assoc]
  exact (List.prefix_append_right_inj _).2 ⟨_, rfl⟩

/-- **Metadata lies on the configured SSDs exactly when** each command line leaves the path of the
SSD at its default: no `-s` option, or a last one that gives the default path. -/
theorem metadata_on_ssd_iff {opts₁ opts₂ : List Opt} {st₁ st₂ : CloudfsState}
    (h₁ : parseArguments opts₁ = .ok st₁) (h₂ : parseArguments opts₂ = .ok st₂) :
    MetadataOnSsd st₁ st₂ ↔ SsdPathDefault opts₁ ∧ SsdPathDefault opts₂ := by
  rw [ssdPathDefault_iff h₁, ssdPathDefault_iff h₂]
  refine ⟨fun h => ⟨h.derived₁, h.derived₂⟩, fun ⟨hd₁, hd₂⟩ => ⟨hd₁, hd₂, below_of_derived hd₁,
    below_of_derived hd₂, fun hne => absurd ?_ hne⟩⟩
  rw [← List.append_left_inj "/.metadata".toList, ← hd₁, ← hd₂, metadataPath_parseArguments h₁,
    metadataPath_parseArguments h₂]

theorem metadata_on_ssd_iff_default :
    MetadataOnSsd defaultState defaultState ↔
      SsdPathDefault [] ∧ SsdPathDefault [.ssdPath defaultSsdPath] :=
  metadata_on_ssd_iff rfl rfl

/-- **Two mounts with their SSDs at `/a` and `/b` keep the metadata of every path in one file**, on
neither of them. -/
theorem metadata_shared :
    parseArguments [.ssdPath ['/', 'a']] = .ok { defaultState with ssdPath := ['/', 'a'] } ∧
      parseArguments [.ssdPath ['/', 'b']] = .ok { defaultState with ssdPath := ['/', 'b'] } ∧
      (∀ p, getMetadataPath { defaultState with ssdPath := ['/', 'a'] } p
        = getMetadataPath { defaultState with ssdPath := ['/', 'b'] } p) ∧
      ¬ MetadataOnSsd { defaultState with ssdPath := ['/', 'a'] }
        { defaultState with ssdPath := ['/', 'b'] } := by
  refine ⟨rfl, rfl, fun _ => rfl, fun h => ?_⟩
  exact h.apart (by decide) [] [] rfl

end CloudFS

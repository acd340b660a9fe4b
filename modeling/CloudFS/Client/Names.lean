import CloudFS.Machinery.Posix.Fs
import Mathlib.Data.Int.Notation
import Mathlib.Data.Set.Insert

/-!
# Client/Names — the names a path is given

A file system path names three things: an SSD entry (`getAbsolutePath`), a metadata file
(`getMetadataPath`) and a bucket object (`getKey`).  The last two come from flattening the path
into one name, `/` becoming `+`, so they are told apart exactly when the keys are
(`getMetadataPath_inj`); on paths without a `+` the key loses nothing (`getKey_inj`).
-/

namespace CloudFS

open Posix

/-- `struct cloudfs_state`: the configuration of a mount. -/
structure CloudfsState where
  ssdPath : Name
  fusePath : Name
  metadataPath : Name
  hostname : Name
  ssdSize : ℤ
  threshold : ℤ
  avgSegSize : ℤ
  rabinWindowSize : ℤ
  noDedup : Bool

/-- A configuration with its SSD under `/ssd`. -/
def CloudfsState.sample (threshold : ℤ) : CloudfsState where
  ssdPath := ['/', 's', 's', 'd']
  fusePath := ['/', 'f', 'u', 's', 'e']
  metadataPath := ['/', 's', 's', 'd', '/', '.', 'm', 'e', 't', 'a', 'd', 'a', 't', 'a']
  hostname := []
  ssdSize := 0
  threshold := threshold
  avgSegSize := 0
  rabinWindowSize := 0
  noDedup := true

/-- `get_key`: the path flattened into one name. -/
def getKey (path : Name) : Name := path.map fun c => if c ≠ '/' then c else '+'

/-- `get_absolute_path`: where the path lies on the SSD. -/
def getAbsolutePath (st : CloudfsState) (path : Name) : Name := st.ssdPath ++ path

/-- `get_metadata_path`: the metadata file of the path. -/
def getMetadataPath (st : CloudfsState) (path : Name) : Name :=
  st.metadataPath ++ ['/'] ++ getKey path

/-- The path lies outside the metadata directory. -/
structure Outside (st : CloudfsState) (path : Name) : Prop where
  not_dir : getAbsolutePath st path ≠ st.metadataPath
  not_below : ¬ (st.metadataPath ++ ['/']) <+: getAbsolutePath st path

/-- A path outside the metadata directory and without a `+`. -/
structure Clean (st : CloudfsState) (path : Name) : Prop extends Outside st path where
  plus_free : '+' ∉ path

variable {st : CloudfsState} {p q : Name}

instance : Decidable (Outside st p) :=
  decidable_of_iff (getAbsolutePath st p ≠ st.metadataPath ∧
    ¬ (st.metadataPath ++ ['/']) <+: getAbsolutePath st p)
    ⟨fun h => ⟨h.1, h.2⟩, fun h => ⟨h.not_dir, h.not_below⟩⟩

instance : Decidable (Clean st p) :=
  decidable_of_iff (Outside st p ∧ '+' ∉ p)
    ⟨fun h => ⟨h.1, h.2⟩, fun h => ⟨h.toOutside, h.plus_free⟩⟩

theorem getAbsolutePath_inj : getAbsolutePath st p = getAbsolutePath st q ↔ p = q :=
  List.append_right_inj _

theorem getMetadataPath_inj : getMetadataPath st p = getMetadataPath st q ↔ getKey p = getKey q :=
  List.append_right_inj _

/-- **No path outside the metadata directory is the metadata file of any path.** -/
theorem Outside.absolute_ne_metadata (h : Outside st p) (q : Name) :
    getAbsolutePath st p ≠ getMetadataPath st q :=
  fun he => h.not_below (he ▸ List.prefix_append _ _)

theorem slash_not_mem_getKey (p : Name) : '/' ∉ getKey p := by
  intro h
  obtain ⟨c, -, hc⟩ := List.mem_map.1 h
  split at hc
  · exact absurd hc ‹_›
  · exact absurd hc (by decide)

/-- A path with a slash, as every path of a file is, is not its own metadata file. -/
theorem absolute_ne_metadata_of_slash (h : '/' ∈ p) :
    getAbsolutePath st p ≠ getMetadataPath st p := by
  intro he
  have hlen : p.length = (getKey p).length := by rw [getKey, List.length_map]
  obtain ⟨-, hk⟩ := List.append_inj' he hlen
  exact slash_not_mem_getKey p (hk ▸ h)

/-- Where no `+` occurs, flattening undoes itself. -/
theorem map_getKey (h : '+' ∉ p) : ((getKey p).map fun c => if c = '+' then '/' else c) = p := by
  rw [getKey, List.map_map]
  refine (List.map_congr_left fun c hc => ?_).trans (List.map_id p)
  have hne : c ≠ '+' := fun e => h (e ▸ hc)
  by_cases hs : c = '/'
  · subst hs
    rfl
  · simp [hs, hne]

/-- **Paths without a `+` have distinct keys.** -/
theorem getKey_inj (hp : '+' ∉ p) (hq : '+' ∉ q) : getKey p = getKey q ↔ p = q := by
  refine ⟨fun h => ?_, fun h => h ▸ rfl⟩
  rw [← map_getKey hp, h, map_getKey hq]

theorem Clean.getKey_ne (hp : Clean st p) (hq : Clean st q) (h : p ≠ q) : getKey p ≠ getKey q :=
  fun he => h ((getKey_inj hp.plus_free hq.plus_free).1 he)

/-! ## The names of a path on the SSD -/

/-- The two SSD names a path may touch. -/
def ssdNames (st : CloudfsState) (p : Name) : Set Name :=
  {getAbsolutePath st p, getMetadataPath st p}

theorem absolute_mem_ssdNames : getAbsolutePath st p ∈ ssdNames st p := Or.inl rfl

theorem metadata_mem_ssdNames : getMetadataPath st p ∈ ssdNames st p := Or.inr rfl

/-- Paths with distinct keys touch distinct names. -/
theorem absolute_not_mem_ssdNames (hq : Outside st q) (h : p ≠ q) :
    getAbsolutePath st q ∉ ssdNames st p := by
  rintro (he | he)
  · exact h (getAbsolutePath_inj.1 he).symm
  · exact hq.absolute_ne_metadata p he

theorem metadata_not_mem_ssdNames (hp : Outside st p) (h : getKey p ≠ getKey q) :
    getMetadataPath st q ∉ ssdNames st p := by
  rintro (he | he)
  · exact hp.absolute_ne_metadata q he.symm
  · exact h (getMetadataPath_inj.1 he).symm

end CloudFS

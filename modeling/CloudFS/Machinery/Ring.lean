import CloudFS.Machinery.Table
import Mathlib.Data.List.Nodup

/-!
# Machinery/Ring — doubly linked rings

Nodes in memory, each with the address of the one before and the one after it, the last one before
the first.  `Links` says that a memory holds the nodes of a ring in a given order and nothing else,
so a node that is lost and a node that is given back twice are both ruled out.  A node is put in at
the end (`links_insertBefore`), taken off the front (`links_remove`) and refilled (`Links.set`), all
through stores that fail where there is no node.
-/

/-- A node of a ring. -/
structure Node (α : Type) where
  val : α
  prev : ℕ
  next : ℕ

namespace Ring

variable {α : Type} {mem mem' : Table (Node α)} {l l₁ l₂ : List (ℕ × α)} {a g x : ℕ} {v w : α}
  {n : Node α}

/-- The addresses of the nodes. -/
def addrs (l : List (ℕ × α)) : List ℕ := l.map Prod.fst

/-- **The memory holds the nodes `l`, linked in this order, and nothing else.**  Before and after a
node stand the ends of what is left when the ring is cut at the node. -/
structure Links (mem : Table (Node α)) (l : List (ℕ × α)) : Prop where
  nodup : (addrs l).Nodup
  get : ∀ l₁ a v l₂, l = l₁ ++ (a, v) :: l₂ → mem.get a
    = some ⟨v, (addrs (l₂ ++ l₁)).getLast?.getD a, (addrs (l₂ ++ l₁)).head?.getD a⟩
  only : ∀ a, a ∉ addrs l → mem.get a = none

/-- A store to a node; `none` if there is no node. -/
def store (mem : Table (Node α)) (a : ℕ) (f : Node α → Node α) : Option (Table (Node α)) :=
  (mem.get a).map fun n => mem.set a (f n)

/-- A new ring of one node. -/
def alone (mem : Table (Node α)) (v : α) : Table (Node α) := mem.alloc ⟨v, mem.next, mem.next⟩

/-- A new node before the node `g`. -/
def insertBefore (mem : Table (Node α)) (g : ℕ) (v : α) : Option (Table (Node α)) := do
  let head ← mem.get g
  let mem₁ := mem.alloc ⟨v, head.prev, g⟩
  let mem₂ ← store mem₁ head.prev fun n => { n with next := mem.next }
  store mem₂ g fun n => { n with prev := mem.next }

/-- The node `a` taken out and given back. -/
def remove (mem : Table (Node α)) (a : ℕ) : Option (Table (Node α)) := do
  let n ← mem.get a
  if n.next = a then some (mem.erase a)
  else do
    let mem₁ ← store mem n.prev fun m => { m with next := n.next }
    let mem₂ ← store mem₁ n.next fun m => { m with prev := n.prev }
    some (mem₂.erase a)

/-! ## Lists of nodes -/

@[simp] theorem addrs_nil : addrs ([] : List (ℕ × α)) = [] := rfl

@[simp] theorem addrs_cons (x : ℕ × α) (l : List (ℕ × α)) : addrs (x :: l) = x.1 :: addrs l := rfl

@[simp] theorem addrs_append (l₁ l₂ : List (ℕ × α)) : addrs (l₁ ++ l₂) = addrs l₁ ++ addrs l₂ :=
  List.map_append

theorem mem_addrs_iff : a ∈ addrs l ↔ ∃ v l₁ l₂, l = l₁ ++ (a, v) :: l₂ := by
  constructor
  · intro h
    obtain ⟨⟨b, v⟩, hx, rfl⟩ := List.mem_map.1 h
    obtain ⟨l₁, l₂, rfl⟩ := List.append_of_mem hx
    exact ⟨v, l₁, l₂, rfl⟩
  · rintro ⟨v, l₁, l₂, rfl⟩
    simp

/-! ## Stores -/

theorem store_of_get (h : mem.get a = some n) (f : Node α → Node α) :
    store mem a f = some (mem.set a (f n)) := by rw [store, h, Option.map_some]

/-- What a store leaves everywhere. -/
theorem get_store {f : Node α → Node α} (h : store mem a f = some mem') (x : ℕ) :
    mem'.get x = (mem.get x).map fun n => if x = a then f n else n := by
  obtain ⟨n, hn, rfl⟩ := Option.map_eq_some_iff.1 h
  by_cases hx : x = a
  · subst hx
    rw [Table.get_set_self hn, hn, Option.map_some, if_pos rfl]
  · simp [Table.get_set_of_ne hx, hx]

theorem next_store {f : Node α → Node α} (h : store mem a f = some mem') :
    mem'.next = mem.next := by
  obtain ⟨n, -, rfl⟩ := Option.map_eq_some_iff.1 h
  rfl

/-- A store to a node there is. -/
theorem exists_store (h : (mem.get a).isSome) (f : Node α → Node α) :
    ∃ mem', store mem a f = some mem' := by
  obtain ⟨n, hn⟩ := Option.isSome_iff_exists.1 h
  exact ⟨_, store_of_get hn f⟩

/-- What an allocation leaves everywhere. -/
theorem get_alloc (mem : Table (Node α)) (n : Node α) (x : ℕ) :
    (mem.alloc n).get x = if x = mem.next then some n else mem.get x := by
  split
  case isTrue h => rw [h, Table.get_alloc_next]
  case isFalse h => exact Table.get_alloc_of_ne h

/-! ## Cutting a ring -/

/-- A node is the first of a ring when nothing stands before it. -/
theorem head?_addrs_iff (h : (addrs (l₁ ++ (a, v) :: l₂)).Nodup) :
    (addrs (l₁ ++ (a, v) :: l₂)).head? = some a ↔ l₁ = [] := by
  cases l₁ with
  | nil => simp
  | cons y l₁ =>
    have hne : y.1 ≠ a := by
      rintro rfl
      simp at h
    simp [hne]

/-- A node is the last of a ring when nothing stands after it. -/
theorem getLast?_addrs_iff (h : (addrs (l₁ ++ (a, v) :: l₂)).Nodup) :
    (addrs (l₁ ++ (a, v) :: l₂)).getLast? = some a ↔ l₂ = [] := by
  rcases List.eq_nil_or_concat l₂ with rfl | ⟨l₃, y, rfl⟩
  · simp
  · have hne : y.1 ≠ a := by
      rintro rfl
      simp [List.nodup_append] at h
    simp [List.getLast?_append, List.getLast?_cons, hne]

namespace Links

/-- A node of the ring is there. -/
theorem isSome_of_mem (hl : Links mem l) (ha : a ∈ addrs l) : (mem.get a).isSome := by
  obtain ⟨v, l₁, l₂, rfl⟩ := mem_addrs_iff.1 ha
  rw [hl.get _ _ _ _ rfl]
  rfl

theorem mem_of_isSome (hl : Links mem l) (ha : (mem.get a).isSome) : a ∈ addrs l := by
  by_contra hc
  rw [hl.only a hc] at ha
  exact absurd ha (by simp)

/-- The address handed out next is not one of the ring. -/
theorem next_not_mem (hl : Links mem l) : mem.next ∉ addrs l := fun h => by
  have hs := hl.isSome_of_mem h
  rw [Table.get_next] at hs
  exact absurd hs (by simp)

/-- The first node. -/
theorem head (hl : Links mem ((g, w) :: l)) :
    mem.get g = some ⟨w, (addrs l).getLast?.getD g, (addrs l).head?.getD g⟩ := by
  have h := hl.get [] g w l rfl
  rwa [List.append_nil] at h

end Links

theorem links_nil : Links (Table.empty : Table (Node α)) [] :=
  ⟨List.nodup_nil, fun l₁ _ _ _ h => by simp at h, fun _ _ => rfl⟩

/-- **A new ring.** -/
theorem links_alone (hl : Links mem []) (v : α) : Links (alone mem v) [(mem.next, v)] where
  nodup := List.nodup_singleton _
  get l₁ a u l₂ h := by
    obtain ⟨rfl, hx, rfl⟩ : l₁ = [] ∧ (mem.next, v) = (a, u) ∧ l₂ = [] := by
      cases l₁ <;> simp_all
    obtain ⟨rfl, rfl⟩ := Prod.mk.inj hx
    exact Table.get_alloc_next ..
  only a ha := by
    have hne : a ≠ mem.next := by simpa using ha
    rw [alone, Table.get_alloc_of_ne hne]
    exact hl.only a (by simp)

/-- What putting in a node before the first leaves at every address. -/
theorem exists_insertBefore (hl : Links mem ((g, w) :: l)) (v : α) :
    ∃ mem', insertBefore mem g v = some mem' ∧ mem'.next = mem.next + 1 ∧
      ∀ x, mem'.get x = (if x = mem.next then some ⟨v, (addrs l).getLast?.getD g, g⟩
        else mem.get x).map fun n => ⟨n.val, if x = g then mem.next else n.prev,
          if x = (addrs l).getLast?.getD g then mem.next else n.next⟩ := by
  have hk : (addrs ((g, w) :: l)).getLast? = some ((addrs l).getLast?.getD g) := List.getLast?_cons
  have hsome : ∀ {x}, x ∈ addrs ((g, w) :: l) →
      ((mem.alloc ⟨v, (addrs l).getLast?.getD g, g⟩).get x).isSome := fun {x} hx => by
    rw [get_alloc, if_neg fun e : x = mem.next => hl.next_not_mem (e ▸ hx)]
    exact hl.isSome_of_mem hx
  obtain ⟨mem₂, h₂⟩ := exists_store (hsome (List.mem_of_getLast? hk))
    fun n => { n with next := mem.next }
  have hsome₂ : (mem₂.get g).isSome := by
    rw [get_store h₂, Option.isSome_map]
    exact hsome List.mem_cons_self
  obtain ⟨mem₃, h₃⟩ := exists_store hsome₂ fun n => { n with prev := mem.next }
  refine ⟨mem₃, ?_, (next_store h₃).trans (next_store h₂), fun x => ?_⟩
  · simp only [insertBefore, hl.head, Option.bind_eq_bind, Option.bind_some, h₂, h₃]
  · rw [get_store h₃, get_store h₂, get_alloc, Option.map_map]
    refine congrArg (Option.map · _) (funext fun n => ?_)
    simp only [Function.comp]
    split_ifs <;> rfl

/-- **A node put in before the first is the last.** -/
theorem links_insertBefore (hl : Links mem ((g, w) :: l)) (v : α) :
    ∃ mem', insertBefore mem g v = some mem' ∧ mem'.next = mem.next + 1 ∧
      Links mem' ((g, w) :: l ++ [(mem.next, v)]) := by
  obtain ⟨mem', hrun, hnext, hget⟩ := exists_insertBefore hl v
  have hk : (addrs ((g, w) :: l)).getLast? = some ((addrs l).getLast?.getD g) := List.getLast?_cons
  have hnew := hl.next_not_mem
  have hkne : mem.next ≠ (addrs l).getLast?.getD g := fun e => hnew (e ▸ List.mem_of_getLast? hk)
  have hgne : mem.next ≠ g := fun e => hnew (e ▸ List.mem_cons_self)
  refine ⟨mem', hrun, hnext, ?_, fun l₁ a u l₂ h => ?_, fun x hx => ?_⟩
  · rw [addrs_append]
    exact List.nodup_append_comm.1 (List.nodup_cons.2 ⟨hnew, hl.nodup⟩)
  · rcases List.eq_nil_or_concat l₂ with rfl | ⟨l₃, b, rfl⟩
    · obtain ⟨rfl, hx⟩ := List.append_inj' h rfl
      obtain ⟨rfl, rfl⟩ := Prod.mk.inj (List.cons.inj hx).1
      rw [hget, if_pos rfl, List.nil_append, hk]
      simp [hkne, hgne]
    · have h' : ((g, w) :: l) ++ [(mem.next, v)] = (l₁ ++ (a, u) :: l₃) ++ [b] := by simpa using h
      obtain ⟨hold, hx⟩ := List.append_inj' h' rfl
      obtain rfl := (List.cons.inj hx).1
      have hfirst : a = g ↔ l₁ = [] := by
        rw [← head?_addrs_iff (hold ▸ hl.nodup), ← hold]
        simp [eq_comm]
      have hlast : a = (addrs l).getLast?.getD g ↔ l₃ = [] := by
        rw [← getLast?_addrs_iff (hold ▸ hl.nodup), ← hold, hk]
        simp [eq_comm]
      have hane : a ≠ mem.next := fun e => hnew (e ▸ mem_addrs_iff.2 ⟨u, l₁, l₃, hold⟩)
      rw [hget, if_neg hane, hl.get _ _ _ _ hold, Option.map_some]
      simp only [hfirst, hlast]
      cases l₁ <;> cases l₃ <;> simp [List.getLast?_append, List.getLast?_cons]
  · have hxne : x ≠ mem.next := fun e => hx (by simp [e])
    have hxold : x ∉ addrs ((g, w) :: l) := fun h => hx (by
      rw [addrs_append]
      exact List.mem_append_left _ h)
    rw [hget, if_neg hxne, hl.only x hxold]
    rfl

/-- What taking out the first node leaves at every address, between its neighbours `k` and `m`. -/
theorem exists_remove (hl : Links mem ((a, v) :: l)) {k m : ℕ} (hm : (addrs l).head? = some m)
    (hk : (addrs l).getLast? = some k) :
    ∃ mem', remove mem a = some mem' ∧ mem'.next = mem.next ∧
      ∀ x, mem'.get x = if x = a then none else (mem.get x).map fun n =>
        ⟨n.val, if x = m then k else n.prev, if x = k then m else n.next⟩ := by
  have hself := hl.head
  rw [hm, hk] at hself
  have hnot : a ∉ addrs l := (List.nodup_cons.1 hl.nodup).1
  have hne : m ≠ a := fun e => hnot (e ▸ List.mem_of_head? hm)
  obtain ⟨mem₁, h₁⟩ := exists_store
    (hl.isSome_of_mem (List.mem_cons_of_mem _ (List.mem_of_getLast? hk)))
    fun n => { n with next := m }
  have hsome₁ : (mem₁.get m).isSome := by
    rw [get_store h₁, Option.isSome_map]
    exact hl.isSome_of_mem (List.mem_cons_of_mem _ (List.mem_of_head? hm))
  obtain ⟨mem₂, h₂⟩ := exists_store hsome₁ fun n => { n with prev := k }
  refine ⟨mem₂.erase a, ?_, (next_store h₂).trans (next_store h₁), fun x => ?_⟩
  · simp only [remove, hself, Option.getD_some, Option.bind_eq_bind, Option.bind_some, hne,
      if_false, h₁, h₂]
  · by_cases hx : x = a
    · rw [if_pos hx, hx, Table.get_erase_self]
    · rw [if_neg hx, Table.get_erase_of_ne hx, get_store h₂, get_store h₁, Option.map_map]
      refine congrArg (Option.map · _) (funext fun n => ?_)
      simp only [Function.comp]
      split_ifs <;> rfl

/-- **The first node taken out and given back.** -/
theorem links_remove (hl : Links mem ((a, v) :: l)) :
    ∃ mem', remove mem a = some mem' ∧ mem'.next = mem.next ∧ Links mem' l := by
  obtain ⟨hnot, hnodup⟩ := List.nodup_cons.1 hl.nodup
  cases hm : (addrs l).head? with
  | none =>
    obtain rfl : l = [] := by simpa [addrs] using hm
    refine ⟨mem.erase a, by simp [remove, hl.head], rfl, List.nodup_nil, fun l₁ _ _ _ h => ?_,
      fun x _ => ?_⟩
    · simp at h
    · by_cases hx : x = a
      · rw [hx, Table.get_erase_self]
      · rw [Table.get_erase_of_ne hx]
        exact hl.only x (by simpa using hx)
  | some m =>
    obtain ⟨k, hk⟩ : ∃ k, (addrs l).getLast? = some k := by
      cases l with
      | nil => simp at hm
      | cons y l => exact ⟨_, List.getLast?_cons⟩
    obtain ⟨mem', hrun, hnext, hget⟩ := exists_remove hl hm hk
    refine ⟨mem', hrun, hnext, hnodup, fun l₁ x u l₂ h => ?_, fun x hx => ?_⟩
    · have hxa : x ≠ a := fun e => hnot (e ▸ mem_addrs_iff.2 ⟨u, l₁, l₂, h⟩)
      have hfirst : x = m ↔ l₁ = [] := by
        rw [← head?_addrs_iff (h ▸ hnodup), ← h, hm]
        simp [eq_comm]
      have hlast : x = k ↔ l₂ = [] := by
        rw [← getLast?_addrs_iff (h ▸ hnodup), ← h, hk]
        simp [eq_comm]
      rw [hget, if_neg hxa, hl.get ((a, v) :: l₁) x u l₂ (by rw [h, List.cons_append]),
        Option.map_some]
      simp only [hfirst, hlast]
      rw [h] at hm hk
      cases l₁ <;> cases l₂ <;> simp_all [List.getLast?_append, List.getLast?_cons]
    · rw [hget]
      split
      · rfl
      · rw [hl.only x fun h => ?_]
        · rfl
        · rcases List.mem_cons.1 h with rfl | h
          · contradiction
          · exact hx h

/-! ## Filling a node -/

/-- The list with the node `a` filled with `v`. -/
def put (l : List (ℕ × α)) (a : ℕ) (v : α) : List (ℕ × α) :=
  l.map fun x => if x.1 = a then (a, v) else x

theorem addrs_put (l : List (ℕ × α)) (a : ℕ) (v : α) : addrs (put l a v) = addrs l := by
  rw [addrs, put, List.map_map]
  refine List.map_congr_left fun x _ => ?_
  rw [Function.comp_apply]
  split
  case isTrue h => exact h.symm
  case isFalse => rfl

theorem put_of_not_mem (h : a ∉ addrs l) (v : α) : put l a v = l := by
  have hne : ∀ x ∈ l, x.1 ≠ a := fun x hx e => h (by
    rw [← e]
    exact List.mem_map_of_mem hx)
  calc put l a v = l.map id := List.map_congr_left fun x hx => if_neg (hne x hx)
    _ = l := List.map_id l

theorem put_head (h : (addrs ((a, v) :: l)).Nodup) (w : α) :
    put ((a, v) :: l) a w = (a, w) :: l := by
  have hl := put_of_not_mem (List.nodup_cons.1 h).1 w
  rw [put] at hl ⊢
  rw [List.map_cons, hl, if_pos rfl]

theorem put_last (h : (addrs (l ++ [(a, v)])).Nodup) (w : α) :
    put (l ++ [(a, v)]) a w = l ++ [(a, w)] := by
  have hnot : a ∉ addrs l := by
    rw [addrs_append] at h
    exact (List.nodup_cons.1 (List.nodup_append_comm.1 h)).1
  have hl := put_of_not_mem hnot w
  rw [put] at hl ⊢
  rw [List.map_append, hl, List.map_cons, List.map_nil, if_pos rfl]

/-- **A node filled anew.** -/
theorem Links.set (hl : Links mem l) (hn : mem.get a = some n) (v : α) :
    Links (mem.set a { n with val := v }) (put l a v) where
  nodup := by
    rw [addrs_put]
    exact hl.nodup
  get l₁ x u l₂ h := by
    obtain ⟨m₁, m', rfl, rfl, h'⟩ := List.map_eq_append_iff.1 h
    obtain ⟨⟨y, t⟩, m₂, rfl, hy, rfl⟩ := List.map_eq_cons_iff.1 h'
    have hold := hl.get m₁ y t m₂ rfl
    have haddrs : addrs (put m₂ a v ++ put m₁ a v) = addrs (m₂ ++ m₁) := by
      rw [addrs_append, addrs_put, addrs_put, addrs_append]
    rw [put, put] at haddrs
    rw [haddrs]
    split at hy
    case isTrue hya =>
      obtain ⟨rfl, rfl⟩ := Prod.mk.inj hy
      obtain rfl : y = a := hya
      rw [Table.get_set_self hn]
      rw [hold] at hn
      cases hn
      rfl
    case isFalse hya =>
      obtain ⟨rfl, rfl⟩ := Prod.mk.inj hy
      rw [Table.get_set_of_ne hya, hold]
  only x hx := by
    rw [addrs_put] at hx
    have hne : x ≠ a := fun e => hx (hl.mem_of_isSome (by rw [e, hn]; rfl))
    rw [Table.get_set_of_ne hne]
    exact hl.only x hx

end Ring

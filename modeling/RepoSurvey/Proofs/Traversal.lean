import Mathlib.Data.List.Forall2

/-!
# Traversals that may fail

A traversal of a list succeeds exactly if it succeeds at every member, and its results are then
those of the members in order.

* `bind_eq_ok_iff`, `exists_bind_ok_iff`, `bind_eq_bind_of_map`: one step after another;
* `mapM_eq_ok_iff`, `exists_mapM_ok_iff`: the same step at every member;
* `mem_of_mapM_eq_ok`, `map_eq_of_mapM_eq_ok`, `forall₂_of_mapM_filterMap`: where results come
  from;
* `flatten_eq_flatMap`, `flatten_mapM_lists`: lists taken in turn, and a list taken in pieces;
* `pairwise_of_forall₂`, `nodup_map_of_forall₂`, `pairwise_flatten_of_tags`: results in order;
* `takeWhile_stop`, `not_of_head?_dropWhile`: a list cut behind its first members of a kind;
* `failure?_bind`, `failure?_mapM`: the failure of steps in turn is the first of their failures.
-/

namespace RepoSurvey

variable {ε α β : Type}

theorem bind_eq_ok_iff {x : Except ε α} {f : α → Except ε β} {b : β} :
    (x >>= f) = .ok b ↔ ∃ a, x = .ok a ∧ f a = .ok b := by
  cases x with
  | error e =>
    constructor
    · intro h
      cases h
    · rintro ⟨a, h, _⟩
      cases h
  | ok a =>
    constructor
    · exact fun h => ⟨a, rfl, h⟩
    · rintro ⟨a', h, hf⟩
      cases h
      exact hf

theorem map_eq_ok_iff {x : Except ε α} {f : α → β} {b : β} :
    x.map f = .ok b ↔ ∃ a, x = .ok a ∧ f a = b := by
  cases x <;> simp [Except.map]

theorem mapError_eq_ok_iff {ε' : Type} {x : Except ε α} {f : ε → ε'} {a : α} :
    x.mapError f = .ok a ↔ x = .ok a := by
  cases x <;> simp [Except.mapError]

theorem exists_ok_of_isSome {x : Except ε α} (h : x.toOption.isSome = true) :
    ∃ a, x = .ok a := by
  cases x with
  | error e => cases h
  | ok a => exact ⟨a, rfl⟩

/-- A result of which something is known. -/
theorem exists_ok_of_map_toOption {x : Except ε α} {f : α → β} {b : β}
    (h : x.toOption.map f = some b) : ∃ a, x = .ok a ∧ f a = b := by
  cases x with
  | error e => cases h
  | ok a => exact ⟨a, rfl, Option.some.inj h⟩

/-- Two steps in turn succeed if the second succeeds on what the first gives. -/
theorem exists_bind_ok_iff {x : Except ε α} {f : α → Except ε β} :
    (∃ b, (x >>= f) = .ok b) ↔ ∃ a, x = .ok a ∧ ∃ b, f a = .ok b := by
  constructor
  · rintro ⟨b, h⟩
    obtain ⟨a, hx, hf⟩ := bind_eq_ok_iff.mp h
    exact ⟨a, hx, b, hf⟩
  · rintro ⟨a, hx, b, hf⟩
    exact ⟨b, bind_eq_ok_iff.mpr ⟨a, hx, hf⟩⟩

/-- What is done to a result does not make the step before fail. -/
theorem exists_bind_pure_ok_iff {x : Except ε α} {f : α → β} :
    (∃ b, (x >>= fun a => pure (f a)) = .ok b) ↔ ∃ a, x = .ok a := by
  rw [exists_bind_ok_iff]
  exact ⟨fun ⟨a, hx, _⟩ => ⟨a, hx⟩, fun ⟨a, hx⟩ => ⟨a, hx, f a, rfl⟩⟩

/-- Two steps in turn are the same if the first gives the same, in what the second takes of it. -/
theorem bind_eq_bind_of_map {γ : Type} {x x' : Except ε α} {k : α → γ} (hx : x.map k = x'.map k)
    {f f' : α → Except ε β}
    (hf : ∀ a a', x = .ok a → x' = .ok a' → k a = k a' → f a = f' a') :
    (x >>= f) = (x' >>= f') := by
  cases x with
  | error e =>
    cases x' with
    | error e' =>
      cases hx
      rfl
    | ok a' => cases hx
  | ok a =>
    cases x' with
    | error e' => cases hx
    | ok a' => exact hf a a' rfl rfl (Except.ok.inj hx)

/-- Two steps in turn are the same if the first is, and the second on what the first gives. -/
theorem bind_eq_bind {x x' : Except ε α} (hx : x = x') {f f' : α → Except ε β}
    (hf : ∀ a, x = .ok a → f a = f' a) : (x >>= f) = (x' >>= f') := by
  subst hx
  cases x with
  | error e => rfl
  | ok a => exact hf a rfl

theorem mapM_eq_ok_iff {f : α → Except ε β} {xs : List α} {ys : List β} :
    xs.mapM f = .ok ys ↔ List.Forall₂ (fun x y => f x = .ok y) xs ys := by
  induction xs generalizing ys with
  | nil =>
    rw [List.mapM_nil, List.forall₂_nil_left_iff]
    exact ⟨fun h => by cases h; rfl, fun h => h ▸ rfl⟩
  | cons x xs ih =>
    rw [List.mapM_cons, bind_eq_ok_iff]
    constructor
    · rintro ⟨y, hx, h⟩
      obtain ⟨rest, hrest, h⟩ := bind_eq_ok_iff.mp h
      cases h
      exact .cons hx (ih.mp hrest)
    · intro h
      cases h with
      | @cons _ y _ rest hx hrest =>
        exact ⟨y, hx, bind_eq_ok_iff.mpr ⟨rest, ih.mpr hrest, rfl⟩⟩

theorem exists_mapM_ok_iff {f : α → Except ε β} {xs : List α} :
    (∃ ys, xs.mapM f = .ok ys) ↔ ∀ x ∈ xs, ∃ y, f x = .ok y := by
  induction xs with
  | nil => simp [pure, Except.pure]
  | cons x xs ih =>
    rw [List.mapM_cons, exists_bind_ok_iff, List.forall_mem_cons, ← ih]
    constructor
    · rintro ⟨y, hx, ys, h⟩
      obtain ⟨rest, hrest, _⟩ := bind_eq_ok_iff.mp h
      exact ⟨⟨y, hx⟩, rest, hrest⟩
    · rintro ⟨⟨y, hx⟩, rest, hrest⟩
      exact ⟨y, hx, y :: rest, bind_eq_ok_iff.mpr ⟨rest, hrest, rfl⟩⟩

/-- The same at every member is the same in all. -/
theorem mapM_congr {f g : α → Except ε β} {xs : List α} (h : ∀ x ∈ xs, f x = g x) :
    xs.mapM f = xs.mapM g := by
  induction xs with
  | nil => rfl
  | cons x xs ih =>
    obtain ⟨hx, hxs⟩ := List.forall_mem_cons.mp h
    rw [List.mapM_cons, List.mapM_cons, hx, ih hxs]

theorem mem_of_mapM_eq_ok {f : α → Except ε β} {xs : List α} {ys : List β}
    (h : xs.mapM f = .ok ys) (y : β) : y ∈ ys ↔ ∃ x ∈ xs, f x = .ok y := by
  have hall := mapM_eq_ok_iff.mp h
  clear h
  induction hall with
  | nil => simp
  | @cons x z xs ys hx _ ih =>
    have hys : y ∈ ys ↔ ∃ x ∈ xs, f x = .ok y := ih
    rw [List.mem_cons, hys, List.exists_mem_cons_iff, hx, Except.ok.injEq, eq_comm]

/-- Where a member of the results, taken together, comes from. -/
theorem exists_of_mem_flatten {f : α → Except ε (List β)} {xs : List α} {found : List (List β)}
    (h : xs.mapM f = .ok found) {y : β} (hy : y ∈ found.flatten) :
    ∃ x ∈ xs, ∃ ys, f x = .ok ys ∧ y ∈ ys := by
  obtain ⟨ys, hys, hmem⟩ := List.mem_flatten.mp hy
  obtain ⟨x, hx, hf⟩ := (mem_of_mapM_eq_ok h ys).mp hys
  exact ⟨x, hx, ys, hf, hmem⟩

/-- The members beside their results are those that give them. -/
theorem mem_zip_of_mapM_eq_ok {f : α → Except ε β} {xs : List α} {ys : List β}
    (h : xs.mapM f = .ok ys) (x : α) (y : β) : (x, y) ∈ xs.zip ys ↔ x ∈ xs ∧ f x = .ok y := by
  have hall := mapM_eq_ok_iff.mp h
  clear h
  induction hall with
  | nil => simp
  | @cons a b xs ys ha _ ih =>
    have hzip : (x, y) ∈ xs.zip ys ↔ x ∈ xs ∧ f x = .ok y := ih
    rw [List.zip_cons_cons, List.mem_cons, hzip, List.mem_cons, Prod.mk.injEq]
    constructor
    · rintro (⟨rfl, rfl⟩ | ⟨hx, hy⟩)
      · exact ⟨Or.inl rfl, ha⟩
      · exact ⟨Or.inr hx, hy⟩
    · rintro ⟨rfl | hx, hy⟩
      · rw [ha] at hy
        cases hy
        exact Or.inl ⟨rfl, rfl⟩
      · exact Or.inr ⟨hx, hy⟩

/-- What is read off the results, if it can be read off the members too. -/
theorem map_eq_of_mapM_eq_ok {γ : Type} {f : α → Except ε β} {xs : List α} {ys : List β}
    (h : xs.mapM f = .ok ys) {g : β → γ} {k : α → γ}
    (hg : ∀ x ∈ xs, ∀ y, f x = .ok y → g y = k x) : ys.map g = xs.map k := by
  have hall := mapM_eq_ok_iff.mp h
  clear h
  induction hall with
  | nil => rfl
  | @cons x y xs ys hx _ ih =>
    obtain ⟨hhead, htail⟩ := List.forall_mem_cons.mp hg
    have hrest : ys.map g = xs.map k := ih htail
    rw [List.map_cons, List.map_cons, hhead y hx, hrest]

/-- What is read off the results of two traversals, if it is the same at every member. -/
theorem map_eq_map_of_mapM {γ : Type} {f g : α → Except ε β} {xs : List α} {ys zs : List β}
    (hf : xs.mapM f = .ok ys) (hg : xs.mapM g = .ok zs) {k : β → γ}
    (h : ∀ x ∈ xs, ∀ y z, f x = .ok y → g x = .ok z → k y = k z) : ys.map k = zs.map k := by
  have hall := mapM_eq_ok_iff.mp hf
  have hall' := mapM_eq_ok_iff.mp hg
  clear hf hg
  induction hall generalizing zs with
  | nil =>
    rw [List.forall₂_nil_left_iff.mp hall']
  | @cons x y xs ys hx _ ih =>
    obtain ⟨hhead, htail⟩ := List.forall_mem_cons.mp h
    cases hall' with
    | @cons _ z _ zs hz hrest =>
      rw [List.map_cons, List.map_cons, hhead y z hx hz, ih htail hrest]

/-- The results of a traversal of what is made of some members, beside these members. -/
theorem forall₂_of_mapM_filterMap {γ : Type} {f : β → Except ε γ} {g : α → Option β}
    {xs : List α} {ys : List γ} (h : (xs.filterMap g).mapM f = .ok ys) :
    List.Forall₂ (fun x y => ∃ b, g x = some b ∧ f b = .ok y)
      (xs.filter fun x => (g x).isSome) ys := by
  induction xs generalizing ys with
  | nil =>
    cases h
    exact .nil
  | cons x xs ih =>
    rw [List.filterMap_cons] at h
    rw [List.filter_cons]
    cases hx : g x with
    | none =>
      rw [hx] at h
      exact ih h
    | some b =>
      rw [hx, List.mapM_cons] at h
      obtain ⟨y, hy, h⟩ := bind_eq_ok_iff.mp h
      obtain ⟨rest, hrest, h⟩ := bind_eq_ok_iff.mp h
      cases h
      exact .cons ⟨b, hx, hy⟩ (ih hrest)

/-- Lists that are taken in turn, joined, if each can be told from the member that gives it. -/
theorem flatten_eq_flatMap {f : α → Except ε (List β)} {xs : List α} {found : List (List β)}
    (h : xs.mapM f = .ok found) {g : α → List β} (hg : ∀ x ∈ xs, ∀ ys, f x = .ok ys → ys = g x) :
    found.flatten = xs.flatMap g := by
  have hmap := map_eq_of_mapM_eq_ok h (g := id) hg
  rw [List.map_id] at hmap
  rw [hmap, List.flatMap]

theorem flatten_eq_flatMap_of_mapM {f : α → Except ε (List β)} {xs : List α}
    {found : List (List β)} (h : xs.mapM f = .ok found) :
    found.flatten = xs.flatMap fun x => (f x).toOption.getD [] :=
  flatten_eq_flatMap h fun x _ ys hys => by rw [hys]; rfl

/-- What is collected list by list is what is collected from all of them. -/
theorem flatten_mapM_lists (g : α → Except ε (List β)) (xss : List (List α)) :
    (xss.mapM fun xs : List α => (xs.mapM g).map List.flatten).map List.flatten
      = (xss.flatten.mapM g).map List.flatten := by
  induction xss with
  | nil => rfl
  | cons xs xss ih =>
    rw [List.mapM_cons, List.flatten_cons, List.mapM_append]
    cases xs.mapM g with
    | error e => rfl
    | ok ys =>
      calc ((xss.mapM fun xs : List α => (xs.mapM g).map List.flatten) >>= fun rest =>
              pure (ys.flatten :: rest)).map List.flatten
          = ((xss.mapM fun xs : List α => (xs.mapM g).map List.flatten).map List.flatten).map
              (ys.flatten ++ ·) := by
            cases xss.mapM fun xs : List α => (xs.mapM g).map List.flatten <;> rfl
        _ = ((xss.flatten.mapM g).map List.flatten).map (ys.flatten ++ ·) := by rw [ih]
        _ = (xss.flatten.mapM g >>= fun zs => pure (ys ++ zs)).map List.flatten := by
            cases xss.flatten.mapM g with
            | error e => rfl
            | ok zs => exact congrArg Except.ok List.flatten_append.symm

/-! ## Lists cut in two -/

theorem takeWhile_stop {p : α → Bool} {body rest : List α} (hbody : ∀ a ∈ body, p a = true)
    (hrest : ∀ a, rest.head? = some a → p a = false) :
    (body ++ rest).takeWhile p = body ∧ (body ++ rest).dropWhile p = rest := by
  rw [List.takeWhile_append_of_pos hbody, List.dropWhile_append_of_pos hbody]
  cases rest with
  | nil => simp
  | cons a rest => simp [hrest a rfl]

/-- What is left when members are taken off starts with another one. -/
theorem not_of_head?_dropWhile {p : α → Bool} {xs : List α} :
    ∀ a, (xs.dropWhile p).head? = some a → p a = false := by
  intro a ha
  have hfirst := List.head?_dropWhile_not p xs
  rwa [ha] at hfirst

/-! ## Lists beside each other -/

theorem exists_of_mem_right {R : α → β → Prop} {xs : List α} {ys : List β}
    (h : List.Forall₂ R xs ys) {y : β} (hy : y ∈ ys) : ∃ x ∈ xs, R x y := by
  induction h with
  | nil => cases hy
  | @cons a b xs ys hab _ ih =>
    rcases List.mem_cons.mp hy with rfl | hy
    · exact ⟨a, List.mem_cons_self, hab⟩
    · obtain ⟨x, hx, hR⟩ := ih hy
      exact ⟨x, List.mem_cons_of_mem a hx, hR⟩

/-- What holds between members in order holds between their results. -/
theorem pairwise_of_forall₂ {R : α → β → Prop} {P : α → α → Prop} {Q : β → β → Prop}
    {xs : List α} {ys : List β} (h : List.Forall₂ R xs ys) (hxs : xs.Pairwise P)
    (hQ : ∀ a b y z, P a b → R a y → R b z → Q y z) : ys.Pairwise Q := by
  induction h with
  | nil => exact .nil
  | @cons x y xs ys hxy hrest ih =>
    obtain ⟨hx, hxs⟩ := List.pairwise_cons.mp hxs
    refine List.pairwise_cons.mpr ⟨fun z hz => ?_, ih hxs⟩
    obtain ⟨a, ha, haz⟩ := exists_of_mem_right hrest hz
    exact hQ x a y z (hx a ha) hxy haz

/-- What is read off the results is distinct, if it tells distinct members apart. -/
theorem nodup_map_of_forall₂ {γ δ : Type} {R : α → β → Prop} {xs : List α} {ys : List β}
    (h : List.Forall₂ R xs ys) {f : α → γ} {k : β → δ} (hxs : (xs.map f).Nodup)
    (hk : ∀ a b y z, R a y → R b z → k y = k z → f a = f b) : (ys.map k).Nodup :=
  List.pairwise_map.mpr (pairwise_of_forall₂ h (List.pairwise_map.mp hxs)
    fun a b y z hne hy hz heq => hne (hk a b y z hy hz heq))

/-- Lists in which members are tagged, each list with a tag of its own, are joined. -/
theorem pairwise_flatten_of_tags {τ : Type} {R : β → β → Prop} {tag : β → τ}
    (hR : ∀ y z, tag y ≠ tag z → R y z) {tags : List τ} {groups : List (List β)}
    (h : List.Forall₂ (fun t ys => ys.Pairwise R ∧ ∀ y ∈ ys, tag y = t) tags groups)
    (htags : tags.Nodup) : groups.flatten.Pairwise R := by
  induction h with
  | nil => exact .nil
  | @cons t ys tags groups hys hrest ih =>
    obtain ⟨ht, htags⟩ := List.nodup_cons.mp htags
    rw [List.flatten_cons, List.pairwise_append]
    refine ⟨hys.1, ih htags, fun y hy z hz => hR y z ?_⟩
    obtain ⟨zs, hzs, hz⟩ := List.mem_flatten.mp hz
    obtain ⟨other, hother, _, htag⟩ := exists_of_mem_right hrest hzs
    rw [hys.2 y hy, htag z hz]
    exact fun heq => ht (heq ▸ hother)

/-! ## The first failure -/

/-- The failure of a step, if it fails. -/
def failure? : Except ε α → Option ε
  | .ok _ => none
  | .error e => some e

theorem failure?_eq_none_iff {x : Except ε α} : failure? x = none ↔ ∃ a, x = .ok a := by
  cases x <;> simp [failure?]

theorem failure?_eq_some_iff {x : Except ε α} {e : ε} : failure? x = some e ↔ x = .error e := by
  cases x <;> simp [failure?]

/-- What is done to a result does not change the failure. -/
theorem failure?_map (f : α → β) (x : Except ε α) : failure? (x.map f) = failure? x := by
  cases x <;> rfl

theorem failure?_bind_pure (f : α → β) (x : Except ε α) :
    failure? (x >>= fun a => pure (f a)) = failure? x := by
  cases x <;> rfl

theorem failure?_bind_congr {γ : Type} {x : Except ε α} {f : α → Except ε β} {g : α → Except ε γ}
    (h : ∀ a, failure? (f a) = failure? (g a)) : failure? (x >>= f) = failure? (x >>= g) := by
  cases x with
  | error e => rfl
  | ok a => exact h a

/-- A step that fails with the first of `first`, and then one that fails with the first of
`rest`. -/
theorem failure?_bind {x : Except ε α} {f : α → Except ε β} {first rest : List ε}
    (hx : failure? x = first.head?) (hf : ∀ a, x = .ok a → failure? (f a) = rest.head?) :
    failure? (x >>= f) = (first ++ rest).head? := by
  cases x with
  | error e =>
    have hfirst : first.head? = some e := hx.symm
    rw [List.head?_append, hfirst]
    rfl
  | ok a =>
    have hfirst : first.head? = none := hx.symm
    rw [List.head?_append, hfirst]
    exact hf a rfl

/-- A step that succeeds leaves the failure to what comes after it. -/
theorem failure?_bind_of_ok {x : Except ε α} {f : α → Except ε β} {failure : Option ε}
    (hx : ∃ a, x = .ok a) (hf : ∀ a, x = .ok a → failure? (f a) = failure) :
    failure? (x >>= f) = failure := by
  obtain ⟨a, rfl⟩ := hx
  exact hf a rfl

/-- What never fails adds no failure to the step before it. -/
theorem failure?_bind_of_forall_ok {x : Except ε α} {f : α → Except ε β}
    (hf : ∀ a, x = .ok a → ∃ b, f a = .ok b) : failure? (x >>= f) = failure? x := by
  cases x with
  | error e => rfl
  | ok a => exact failure?_eq_none_iff.mpr (hf a rfl)

/-- The same step at every member fails with the first of the failures of the members. -/
theorem failure?_mapM {f : α → Except ε β} {failures : α → List ε} {xs : List α}
    (h : ∀ x ∈ xs, failure? (f x) = (failures x).head?) :
    failure? (xs.mapM f) = (xs.flatMap failures).head? := by
  induction xs with
  | nil => rfl
  | cons x xs ih =>
    obtain ⟨hx, hxs⟩ := List.forall_mem_cons.mp h
    rw [List.mapM_cons, List.flatMap_cons]
    refine failure?_bind hx fun y _ => ?_
    exact (failure?_bind_pure (y :: ·) (xs.mapM f)).trans (ih hxs)

end RepoSurvey

import Admission.Server.Address

/-! # What hiding a password leaves of it

The end of a login is found from behind, by the last at sign of the address, so a password may hold
at signs and slashes. Its start is found from behind as well, by the last colon in front of that
sign, so only what follows the last colon of a password is hidden. -/

namespace Admission.Server

/-! ## Texts cut at marks -/

theorem cutFirst?_append {c : Char} (mark : List Char) {before : List Char} (h : c ∉ before)
    (after : List Char) :
    cutFirst? (c :: mark) (before ++ (c :: mark ++ after)) = some (before, after) := by
  induction before with
  | nil =>
      have hmark : (c :: mark).isPrefixOf (c :: mark ++ after) = true :=
        List.isPrefixOf_iff_prefix.mpr (List.prefix_append _ _)
      rw [List.nil_append, List.cons_append, cutFirst?, ← List.cons_append, if_pos hmark,
        List.drop_left]
  | cons d before ih =>
      rw [List.mem_cons, not_or] at h
      have hother : ¬ (c :: mark).isPrefixOf (d :: (before ++ (c :: mark ++ after))) = true := by
        rw [List.isPrefixOf_iff_prefix, List.cons_prefix_cons]
        exact fun hprefix => h.1 hprefix.1
      rw [List.cons_append, cutFirst?, if_neg hother, ih h.2]
      rfl

theorem cutLast?_of_not_mem {mark : Char} {cs : List Char} (h : mark ∉ cs) :
    cutLast? mark cs = none := by
  induction cs with
  | nil => rfl
  | cons c cs ih =>
      rw [List.mem_cons, not_or] at h
      rw [cutLast?, ih h.2]
      exact if_neg (Ne.symm h.1)

theorem cutLast?_append {mark : Char} (before : List Char) {after : List Char}
    (h : mark ∉ after) : cutLast? mark (before ++ mark :: after) = some (before, after) := by
  induction before with
  | nil =>
      rw [List.nil_append, cutLast?, cutLast?_of_not_mem h]
      exact if_pos rfl
  | cons c before ih => rw [List.cons_append, cutLast?, ih]

/-- The text up to its last mark, the mark included. -/
def upToLast (mark : Char) : List Char → List Char
  | [] => []
  | c :: cs => if mark ∈ c :: cs then c :: upToLast mark cs else []

theorem upToLast_eq_nil_iff {mark : Char} {cs : List Char} :
    upToLast mark cs = [] ↔ mark ∉ cs := by
  cases cs with
  | nil => simp [upToLast]
  | cons c cs => by_cases h : mark ∈ c :: cs <;> simp [upToLast, h]

theorem upToLast_append_cons (mark : Char) (before after : List Char) :
    upToLast mark (before ++ mark :: after) = before ++ mark :: upToLast mark after := by
  induction before with
  | nil => simp [upToLast]
  | cons c before ih => simp [upToLast, ih]

theorem exists_cutLast?_of_mem {mark : Char} {cs : List Char} (h : mark ∈ cs) :
    ∃ before after, cutLast? mark cs = some (before, after) ∧
      before ++ [mark] = upToLast mark cs := by
  induction cs with
  | nil => cases h
  | cons c cs ih =>
      rw [upToLast, if_pos h]
      by_cases hrest : mark ∈ cs
      · obtain ⟨before, after, hcut, hupTo⟩ := ih hrest
        exact ⟨c :: before, after, by rw [cutLast?, hcut], congrArg (c :: ·) hupTo⟩
      · obtain rfl : mark = c := (List.mem_cons.mp h).resolve_right hrest
        refine ⟨[], cs, ?_, by rw [upToLast_eq_nil_iff.mpr hrest]; rfl⟩
        rw [cutLast?, cutLast?_of_not_mem hrest]
        exact if_pos rfl

/-! ## Addresses with a login -/

/-- All of an address that is public: its scheme, the name of the user, which may be empty, and what
follows the login. -/
structure Login where
  scheme : String
  user : String
  host : String
  colon_not_mem_scheme : ':' ∉ scheme.toList
  at_not_mem_host : '@' ∉ host.toList

/-- What a masked address shows of a password. -/
def shownOf (password : String) : String := String.ofList (upToLast ':' password.toList)

namespace Login

/-- The address with a password. -/
def address (a : Login) (password : String) : String :=
  a.scheme ++ "://" ++ a.user ++ ":" ++ password ++ "@" ++ a.host

/-- The address with three stars after a part of the password that is shown. -/
def masked (a : Login) (shown : String) : String := a.address (shown ++ "***")

variable (a : Login) {p q : String}

theorem masked_inj : a.masked p = a.masked q ↔ p = q := by
  simp [masked, address]

/-- The stars take the place of what follows the last colon. -/
theorem maskPassword_address (p : String) :
    maskPassword (a.address p) = a.masked (shownOf p) := by
  have hscheme : cutFirst? [':', '/', '/'] (a.address p).toList =
      some (a.scheme.toList, a.user.toList ++ ':' :: p.toList ++ '@' :: a.host.toList) := by
    rw [← cutFirst?_append ['/', '/'] a.colon_not_mem_scheme]
    simp [address]
  have hhost := cutLast?_append (a.user.toList ++ ':' :: p.toList) a.at_not_mem_host
  have hcolon : ':' ∈ a.user.toList ++ ':' :: p.toList := by simp
  obtain ⟨before, after, hlogin, hshown⟩ := exists_cutLast?_of_mem hcolon
  rw [upToLast_append_cons] at hshown
  simp only [maskPassword, hscheme, hhost, hlogin]
  apply String.ext
  have hmasked := congrArg (fun login => a.scheme.toList ++ "://".toList ++ login ++
    "***@".toList ++ a.host.toList) hshown
  simpa [masked, address, shownOf] using hmasked

end Login

/-- A masked address shows the password up to its last colon: it hides all of it if and only if the
password has no colon, and two passwords look alike if and only if they agree up to there. -/
theorem maskPassword_hides_iff (a : Login) (p q : String) :
    maskPassword (a.address p) = a.masked (shownOf p) ∧
      (maskPassword (a.address p) = a.masked "" ↔ ':' ∉ p.toList) ∧
      (maskPassword (a.address p) = maskPassword (a.address q) ↔ shownOf p = shownOf q) := by
  refine ⟨a.maskPassword_address p, ?_, ?_⟩
  · rw [a.maskPassword_address, a.masked_inj, ← upToLast_eq_nil_iff, shownOf]
    exact String.ofList_eq_empty_iff
  · rw [a.maskPassword_address, a.maskPassword_address, a.masked_inj]

/-- The login of a server that has a password and no users. -/
def userlessLogin : Login := ⟨"redis", "", "h", by decide, by decide⟩

/-- A password with a colon is hidden only in part. -/
theorem maskPassword_shows_colonPassword :
    maskPassword "redis://:a:b@h" = "redis://:a:***@h" ∧
      ¬ ∀ (a : Login) (p : String), (∀ c ∈ [':', '/', '@'], c ∉ a.user.toList) →
        maskPassword (a.address p) = a.masked "" := by
  have hshown : maskPassword "redis://:a:b@h" = "redis://:a:***@h" := by decide +kernel
  refine ⟨hshown, fun hall => ?_⟩
  have hhidden := hall userlessLogin "a:b" (by simp [userlessLogin])
  have haddress : userlessLogin.address "a:b" = "redis://:a:b@h" := by decide +kernel
  have hmasked : userlessLogin.masked "" = "redis://:***@h" := by decide +kernel
  rw [haddress, hmasked, hshown] at hhidden
  revert hhidden
  decide

end Admission.Server

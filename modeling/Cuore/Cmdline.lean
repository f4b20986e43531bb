import Cuore.Framework.CString
import Cuore.Stdio
import Mathlib.Data.List.Find
import Mathlib.Data.List.TakeWhile

/-!
# The kernel command line (`cmdline.c`, `math/fnv1a.c`)

`cmdline_parse` reads the command line into a registry of at most `CMDLINE_MAX_ARGS` entries, and a
look-up goes through the registry, comparing hashes before it compares keys.  The loops that copy a
key and a value stop where their buffers are full, and the parser then goes on with what is left of
the token as if it were a token of its own.

The tokens of a command line are its longest pieces without spaces (`cmdTokens`).  What the parser
makes of one token is `tokenEntries`, the list of one entry and, if the token does not fit, those of
the rest; the registry is the concatenation of these lists (`cmdlineParse_eq`).  The main result
`cmdlineInit_iff` says that the registry has one entry for each token, and that look-ups see the
keys of the tokens and no others, exactly if every token fits the two buffers.

The registry is the list of the entries in use, and a string is the list of its bytes before the
terminating zero.  The outcome `none` is the panic at a full registry.
-/

namespace Cuore

/-! ## The code -/

/-- `CMDLINE_MAX_ARGS`. -/
def cmdlineMaxArgs : ℕ := 128

/-- `hash_fnv1a`.  A `char` has a sign, which the cast to 64 bits extends. -/
def hashFnv1a (key : List UInt8) : UInt64 :=
  key.foldl (fun hash c => (hash ^^^ c.toInt8.toInt64.toUInt64) * 1099511628211)
    14695981039346656037

/-- `arg_entry_t`. -/
structure ArgEntry where
  key : List UInt8
  value : List UInt8
  hash : UInt64
  found : Bool
deriving DecidableEq, Repr

/-- The loops that copy a key or a value: at most `n` bytes, as long as `p` holds.  The result is
what is copied, and what is left of the command line. -/
def copyWhile (p : UInt8 → Bool) : ℕ → List UInt8 → List UInt8 × List UInt8
  | 0, cmd => ([], cmd)
  | _ + 1, [] => ([], [])
  | n + 1, c :: cmd =>
    if p c then ((c :: (copyWhile p n cmd).1), (copyWhile p n cmd).2) else ([], c :: cmd)

/-- A byte of a key. -/
def isKeyByte (c : UInt8) : Bool := c ≠ ascii '=' ∧ c ≠ ascii ' '

/-- The part of the loop from `if (*cmd == '=')` on: the value, and what is left of the command
line. -/
def cmdlineParseValue : List UInt8 → List UInt8 × List UInt8
  | [] => ([], [])
  | c :: cmd => if c = ascii '=' then copyWhile (· ≠ ascii ' ') 63 cmd else ([], c :: cmd)

/-- One round of `cmdline_parse`, behind the spaces: the entry, and what is left of the command
line. -/
def cmdlineParseArg (cmd : List UInt8) : ArgEntry × List UInt8 :=
  let (key, cmd) := copyWhile isKeyByte 31 cmd
  let (value, cmd) := cmdlineParseValue cmd
  (⟨key, value, hashFnv1a key, true⟩, cmd)

/-- `while (*cmd == ' ') cmd++`. -/
def skipSpaces (cmd : List UInt8) : List UInt8 := cmd.dropWhile (· = ascii ' ')

section

variable {p : UInt8 → Bool} {n : ℕ} {cmd : List UInt8}

lemma copyWhile_eq : copyWhile p n cmd =
    ((cmd.takeWhile p).take n, cmd.drop ((cmd.takeWhile p).take n).length) := by
  induction cmd generalizing n with
  | nil => cases n <;> rfl
  | cons c cmd ih =>
    cases n with
    | zero => rfl
    | succ n =>
      rw [copyWhile, ih, List.takeWhile_cons]
      split_ifs with hc <;> rfl

lemma length_copyWhile_le : (copyWhile p n cmd).2.length ≤ cmd.length := by
  rw [copyWhile_eq, List.length_drop]
  exact Nat.sub_le _ _

lemma length_cmdlineParseValue_le : (cmdlineParseValue cmd).2.length ≤ cmd.length := by
  cases cmd with
  | nil => exact Nat.le_refl _
  | cons c cmd =>
    rw [cmdlineParseValue]
    split_ifs
    · exact length_copyWhile_le.trans (Nat.le_succ _)
    · exact Nat.le_refl _

lemma skipSpaces_head (h : skipSpaces cmd ≠ []) : (skipSpaces cmd).head h ≠ ascii ' ' :=
  fun heq => absurd (List.head_dropWhile_not (· = ascii ' ') h) (by
    rw [Bool.not_eq_false, decide_eq_true_eq]
    exact heq)

/-- Each round uses up a byte. -/
lemma length_cmdlineParseArg_lt (h : skipSpaces cmd ≠ []) :
    (cmdlineParseArg (skipSpaces cmd)).2.length < cmd.length := by
  have hspace := skipSpaces_head h
  have hle : (skipSpaces cmd).length ≤ cmd.length :=
    (List.dropWhile_suffix _).length_le
  obtain ⟨c, rest, hcmd⟩ := List.exists_cons_of_ne_nil h
  simp only [hcmd, List.head_cons, List.length_cons] at hspace hle ⊢
  refine Nat.lt_of_lt_of_le (Nat.lt_succ_of_le ?_) hle
  show (cmdlineParseValue (copyWhile isKeyByte 31 (c :: rest)).2).2.length ≤ rest.length
  by_cases hequal : c = ascii '='
  · have hstop : copyWhile isKeyByte 31 (c :: rest) = ([], c :: rest) :=
      if_neg (by simp [isKeyByte, hequal])
    rw [hstop, cmdlineParseValue, if_pos hequal]
    exact length_copyWhile_le
  · have hgo : copyWhile isKeyByte 31 (c :: rest) =
        (c :: (copyWhile isKeyByte 30 rest).1, (copyWhile isKeyByte 30 rest).2) :=
      if_pos (by simp [isKeyByte, hequal, hspace])
    rw [hgo]
    exact length_cmdlineParseValue_le.trans length_copyWhile_le

end

/-- `cmdline_parse`, from the registry of the calls before. -/
def cmdlineParse (registry : List ArgEntry) (cmd : List UInt8) : Option (List ArgEntry) :=
  if _h : skipSpaces cmd = [] then some registry
  else if registry.length ≥ cmdlineMaxArgs then none
  else
    cmdlineParse (registry ++ [(cmdlineParseArg (skipSpaces cmd)).1])
      (cmdlineParseArg (skipSpaces cmd)).2
termination_by cmd.length
decreasing_by exact length_cmdlineParseArg_lt _h

/-- `cmdline_init`; `none` is the null pointer. -/
def cmdlineInit (registry : List ArgEntry) : Option (List UInt8) → Option (List ArgEntry)
  | none => some registry
  | some cmdlineStr => if cmdlineStr = [] then some registry else cmdlineParse registry cmdlineStr

/-- `cmdline_find`; `none` is `-1`. -/
def cmdlineFind (registry : List ArgEntry) (key : List UInt8) : Option ℕ :=
  registry.findIdx? fun entry => entry.hash = hashFnv1a key ∧ compareBytes entry.key key = 0

/-- `cmdline_get_string`; `none` is the null pointer. -/
def cmdlineGetString (registry : List ArgEntry) (key : List UInt8) : Option (List UInt8) :=
  (cmdlineFind registry key).bind fun idx => registry[idx]?.map ArgEntry.value

/-- `cmdline_has_key`. -/
def cmdlineHasKey (registry : List ArgEntry) (key : List UInt8) : Bool :=
  (cmdlineFind registry key).isSome

/-! ## Tokens -/

/-- The tokens of a command line, the longest pieces without spaces. -/
def cmdTokens (s : List UInt8) : List (List UInt8) := (s.splitOn (ascii ' ')).filter (· ≠ [])

/-- The part of a token before the first `=`. -/
def tokenKey (t : List UInt8) : List UInt8 := t.takeWhile (· ≠ ascii '=')

/-- The part of a token behind the first `=`. -/
def tokenValue (t : List UInt8) : List UInt8 := (t.dropWhile (· ≠ ascii '=')).tail

/-- A token that fits the buffers for the key and the value. -/
def TokenFits (t : List UInt8) : Prop := (tokenKey t).length ≤ 31 ∧ (tokenValue t).length ≤ 63

instance (t : List UInt8) : Decidable (TokenFits t) := inferInstanceAs (Decidable (_ ∧ _))

/-- The entry that a token should get. -/
def tokenEntry (t : List UInt8) : ArgEntry :=
  ⟨(tokenKey t).take 31, (tokenValue t).take 63, hashFnv1a ((tokenKey t).take 31), true⟩

/-- The registry, and what look-ups see of it, are as the tokens say. -/
def FollowsTokens (s : List UInt8) (registry : List ArgEntry) : Prop :=
  registry = (cmdTokens s).map tokenEntry ∧
  (∀ key, 0 ∉ key → cmdlineGetString registry key =
    (((cmdTokens s).find? fun t => (tokenKey t).take 31 = key).map fun t =>
      (tokenValue t).take 63)) ∧
  ∀ key, 0 ∉ key → cmdlineHasKey registry key → ∃ t ∈ cmdTokens s, (tokenKey t).take 31 = key

/-- The entries that `cmdline_parse` makes of a command line, if the registry is large enough. -/
def cmdlineEntries (cmd : List UInt8) : List ArgEntry :=
  if _h : skipSpaces cmd = [] then []
  else (cmdlineParseArg (skipSpaces cmd)).1 :: cmdlineEntries (cmdlineParseArg (skipSpaces cmd)).2
termination_by cmd.length
decreasing_by exact length_cmdlineParseArg_lt _h

section

variable {p : UInt8 → Bool} {n : ℕ} {c : UInt8} {s t cmd after key : List UInt8}
  {registry : List ArgEntry}

lemma cmdTokens_nil : cmdTokens [] = [] := rfl

lemma cmdTokens_space : cmdTokens (ascii ' ' :: s) = cmdTokens s := by
  simp [cmdTokens, List.splitOn_cons_eq_if_modifyHead]

lemma cmdTokens_skipSpaces : cmdTokens (skipSpaces s) = cmdTokens s := by
  induction s with
  | nil => rfl
  | cons c s ih =>
    by_cases hc : c = ascii ' '
    · rw [hc, cmdTokens_space, ← ih]
      rfl
    · exact congrArg cmdTokens (List.dropWhile_cons_of_neg (by simpa using hc))

/-- A token and what is behind it. -/
lemma cmdTokens_append (hne : t ≠ []) (ht : ascii ' ' ∉ t)
    (hafter : ∀ c ∈ after.head?, c = ascii ' ') :
    cmdTokens (t ++ after) = t :: cmdTokens after := by
  cases after with
  | nil =>
    rw [List.append_nil, cmdTokens, List.splitOn_eq_singleton ht, cmdTokens_nil]
    exact List.filter_cons_of_pos (by simpa using hne)
  | cons c after =>
    obtain rfl := hafter c rfl
    rw [cmdTokens_space, cmdTokens, List.splitOn_append_cons_self_of_not_mem ht]
    exact List.filter_cons_of_pos (by simpa using hne)

/-- A command line starts, behind its spaces, with its first token. -/
lemma exists_token (h : skipSpaces cmd ≠ []) : ∃ t after, skipSpaces cmd = t ++ after ∧ t ≠ [] ∧
    ascii ' ' ∉ t ∧ (∀ c ∈ after.head?, c = ascii ' ') ∧ after.length < cmd.length := by
  have hspace := skipSpaces_head h
  have hle : (skipSpaces cmd).length ≤ cmd.length := (List.dropWhile_suffix _).length_le
  have hsplit := List.takeWhile_append_dropWhile (p := (· ≠ ascii ' ')) (l := skipSpaces cmd)
  have hne : (skipSpaces cmd).takeWhile (· ≠ ascii ' ') ≠ [] := by
    obtain ⟨c, rest, hcmd⟩ := List.exists_cons_of_ne_nil h
    simp only [hcmd, List.head_cons] at hspace ⊢
    rw [List.takeWhile_cons_of_pos (by simpa using hspace)]
    exact List.cons_ne_nil _ _
  refine ⟨_, _, hsplit.symm, hne, fun hmem => ?_, fun c hc => ?_, ?_⟩
  · simpa using List.mem_takeWhile_imp hmem
  · by_contra hcontra
    have hnil : (skipSpaces cmd).dropWhile (· ≠ ascii ' ') ≠ [] := by
      rintro heq
      rw [heq] at hc
      cases hc
    rw [List.head?_eq_some_head hnil, Option.mem_some_iff] at hc
    have := List.head_dropWhile_not (· ≠ ascii ' ') hnil
    rw [hc] at this
    simp [hcontra] at this
  · have hpos := List.length_pos_of_ne_nil hne
    have := congrArg List.length hsplit
    rw [List.length_append] at this
    omega

lemma cmdTokens_nil_of_skipSpaces (h : skipSpaces cmd = []) : cmdTokens cmd = [] := by
  rw [← cmdTokens_skipSpaces, h, cmdTokens_nil]

/-- Induction over the tokens of a command line. -/
lemma cmdTokens_induction {P : List UInt8 → Prop} (hspaces : ∀ cmd, skipSpaces cmd = [] → P cmd)
    (htoken : ∀ cmd t after, skipSpaces cmd = t ++ after → t ≠ [] → ascii ' ' ∉ t →
      (∀ c ∈ after.head?, c = ascii ' ') → cmdTokens cmd = t :: cmdTokens after → P after → P cmd)
    (cmd : List UInt8) : P cmd := by
  induction hn : cmd.length using Nat.strong_induction_on generalizing cmd with
  | _ n ih =>
    subst hn
    by_cases h : skipSpaces cmd = []
    · exact hspaces cmd h
    · obtain ⟨t, after, heq, hne, ht, hafter, hlt⟩ := exists_token h
      have htokens : cmdTokens cmd = t :: cmdTokens after := by
        rw [← cmdTokens_skipSpaces, heq, cmdTokens_append hne ht hafter]
      exact htoken cmd t after heq hne ht hafter htokens (ih _ hlt after rfl)

lemma mem_cmdTokens (h : t ∈ cmdTokens cmd) : t ≠ [] ∧ ascii ' ' ∉ t ∧ t ⊆ cmd := by
  induction cmd using cmdTokens_induction with
  | hspaces cmd hnil =>
    rw [cmdTokens_nil_of_skipSpaces hnil] at h
    cases h
  | htoken cmd t' after heq hne ht _ htokens ih =>
    have hsub : t' ++ after ⊆ cmd := heq ▸ (List.dropWhile_suffix _).subset
    rw [htokens, List.mem_cons] at h
    rcases h with rfl | h
    · exact ⟨hne, ht, fun c hc => hsub (List.mem_append_left _ hc)⟩
    · obtain ⟨hne', ht', hsub'⟩ := ih h
      exact ⟨hne', ht', fun c hc => hsub (List.mem_append_right _ (hsub' hc))⟩

/-! ## Entries -/

lemma cmdlineEntries_nil (h : skipSpaces cmd = []) : cmdlineEntries cmd = [] := by
  rw [cmdlineEntries, dif_pos h]

lemma cmdlineEntries_cons (h : skipSpaces cmd ≠ []) : cmdlineEntries cmd =
    (cmdlineParseArg (skipSpaces cmd)).1 ::
      cmdlineEntries (cmdlineParseArg (skipSpaces cmd)).2 := by
  rw [cmdlineEntries, dif_neg h]

lemma skipSpaces_append (hne : t ≠ []) (ht : ascii ' ' ∉ t) :
    skipSpaces (t ++ after) = t ++ after := by
  obtain ⟨c, t, rfl⟩ := List.exists_cons_of_ne_nil hne
  rw [List.mem_cons, not_or] at ht
  exact List.dropWhile_cons_of_neg (by simpa using Ne.symm ht.1)

/-- **The registry.**  What the parser does if the registry is large enough, and that it panics if
it is not. -/
lemma cmdlineParse_eq (hle : registry.length ≤ cmdlineMaxArgs) : cmdlineParse registry cmd =
    if (registry ++ cmdlineEntries cmd).length ≤ cmdlineMaxArgs
    then some (registry ++ cmdlineEntries cmd) else none := by
  fun_induction cmdlineParse registry cmd with
  | case1 registry cmd h => rw [cmdlineEntries_nil h, List.append_nil, if_pos hle]
  | case2 registry cmd h hfull =>
    rw [cmdlineEntries_cons h, if_neg]
    rw [List.length_append, List.length_cons]
    omega
  | case3 registry cmd h hfull ih =>
    have hle' : (registry ++ [(cmdlineParseArg (skipSpaces cmd)).1]).length ≤ cmdlineMaxArgs := by
      rw [List.length_append, List.length_singleton]
      omega
    rw [ih hle', cmdlineEntries_cons h, List.append_assoc]
    rfl

lemma copyWhile_append (hafter : ∀ c ∈ after.head?, p c = false) : copyWhile p n (t ++ after) =
    ((copyWhile p n t).1, (copyWhile p n t).2 ++ after) := by
  induction t generalizing n with
  | nil =>
    cases n with
    | zero => rfl
    | succ n =>
      cases after with
      | nil => rfl
      | cons c after =>
        have hstop : ¬p c = true := by simp [hafter c rfl]
        exact if_neg hstop
  | cons c t ih =>
    cases n with
    | zero => rfl
    | succ n =>
      rw [List.cons_append, copyWhile, copyWhile, ih]
      split_ifs <;> rfl

lemma cmdlineParseValue_append (hafter : ∀ c ∈ after.head?, c = ascii ' ') :
    cmdlineParseValue (t ++ after) =
      ((cmdlineParseValue t).1, (cmdlineParseValue t).2 ++ after) := by
  cases t with
  | nil =>
    cases after with
    | nil => rfl
    | cons c after =>
      obtain rfl := hafter c rfl
      have hequal : ascii ' ' ≠ ascii '=' := by decide
      simp [cmdlineParseValue, hequal]
  | cons c t =>
    rw [List.cons_append, cmdlineParseValue, cmdlineParseValue]
    split_ifs
    · exact copyWhile_append fun c hc => by simp [hafter c hc]
    · rfl

/-- What is behind a token makes no difference to its entry. -/
lemma cmdlineParseArg_append (hafter : ∀ c ∈ after.head?, c = ascii ' ') :
    cmdlineParseArg (t ++ after) = ((cmdlineParseArg t).1, (cmdlineParseArg t).2 ++ after) := by
  have hkey : ∀ c ∈ after.head?, isKeyByte c = false := fun c hc => by
    rw [hafter c hc]
    rfl
  simp only [cmdlineParseArg, copyWhile_append hkey, cmdlineParseValue_append hafter]

lemma copyWhile_suffix : (copyWhile p n t).2 <:+ t := by
  rw [copyWhile_eq]
  exact List.drop_suffix _ _

lemma cmdlineParseValue_suffix : (cmdlineParseValue t).2 <:+ t := by
  cases t with
  | nil => exact List.suffix_rfl
  | cons c t =>
    rw [cmdlineParseValue]
    split_ifs
    · exact copyWhile_suffix.trans (List.suffix_cons c t)
    · exact List.suffix_rfl

lemma cmdlineParseArg_suffix : (cmdlineParseArg t).2 <:+ t :=
  cmdlineParseValue_suffix.trans copyWhile_suffix

lemma cmdlineEntries_append (ht : ascii ' ' ∉ t) (hafter : ∀ c ∈ after.head?, c = ascii ' ') :
    cmdlineEntries (t ++ after) = cmdlineEntries t ++ cmdlineEntries after := by
  induction hn : t.length using Nat.strong_induction_on generalizing t with
  | _ n ih =>
    subst hn
    by_cases hne : t = []
    · rw [hne, @cmdlineEntries_nil [] rfl, List.nil_append, List.nil_append]
    · have hskip : skipSpaces t = t := by simpa using @skipSpaces_append t [] hne ht
      have hskip' : skipSpaces (t ++ after) = t ++ after := skipSpaces_append hne ht
      have hlt := @length_cmdlineParseArg_lt t (by rwa [hskip])
      have hrest := ih _ (by rwa [hskip] at hlt) (fun h => ht (cmdlineParseArg_suffix.subset h)) rfl
      rw [cmdlineEntries_cons (by simp [hskip', hne]), @cmdlineEntries_cons t (by rwa [hskip]),
        hskip, hskip', cmdlineParseArg_append hafter, hrest]
      rfl

/-- **The entries of a command line** are those of its tokens, one after the other. -/
lemma cmdlineEntries_eq : cmdlineEntries cmd = (cmdTokens cmd).flatMap cmdlineEntries := by
  induction cmd using cmdTokens_induction with
  | hspaces cmd hnil => rw [cmdlineEntries_nil hnil, cmdTokens_nil_of_skipSpaces hnil,
      List.flatMap_nil]
  | htoken cmd t after heq hne ht hafter htokens ih =>
    have hidem : skipSpaces (skipSpaces cmd) = skipSpaces cmd := heq ▸ skipSpaces_append hne ht
    have hskip : cmdlineEntries cmd = cmdlineEntries (skipSpaces cmd) := by
      have hcons : skipSpaces cmd ≠ [] := by simp [heq, hne]
      rw [cmdlineEntries_cons hcons, @cmdlineEntries_cons (skipSpaces cmd) (by rwa [hidem]), hidem]
    rw [hskip, heq, htokens, cmdlineEntries_append ht hafter, ih, List.flatMap_cons]

/-! ## Tokens that fit -/

lemma takeWhile_isKeyByte (ht : ascii ' ' ∉ t) : t.takeWhile isKeyByte = tokenKey t := by
  induction t with
  | nil => rfl
  | cons c t ih =>
    rw [List.mem_cons, not_or] at ht
    have hbyte : isKeyByte c = decide (c ≠ ascii '=') := by simp [isKeyByte, Ne.symm ht.1]
    rw [tokenKey, List.takeWhile_cons, List.takeWhile_cons, hbyte, ih ht.2]
    rfl

/-- A token behind its key. -/
lemma drop_tokenKey : t.drop (tokenKey t).length = t.dropWhile (· ≠ ascii '=') := by
  have hdrop := @List.drop_left _ (tokenKey t) (t.dropWhile (· ≠ ascii '='))
  rwa [tokenKey, List.takeWhile_append_dropWhile] at hdrop

lemma copyWhile_value (ht : ascii ' ' ∉ t) :
    copyWhile (· ≠ ascii ' ') 63 t = (t.take 63, t.drop 63) := by
  have hall : t.takeWhile (· ≠ ascii ' ') = t :=
    List.takeWhile_eq_self_iff.mpr fun c hc => decide_eq_true fun h : c = ascii ' ' => ht (h ▸ hc)
  have hsplit : t.take 63 ++ t.drop 63 = t := List.take_append_drop 63 t
  have hdrop := @List.drop_left _ (t.take 63) (t.drop 63)
  rw [hsplit] at hdrop
  rw [copyWhile_eq, hall, hdrop]

lemma cmdlineParseValue_eq (ht : ascii ' ' ∉ t) : cmdlineParseValue (t.dropWhile (· ≠ ascii '=')) =
    ((tokenValue t).take 63, (tokenValue t).drop 63) := by
  rw [tokenValue]
  by_cases hnil : t.dropWhile (· ≠ ascii '=') = []
  · rw [hnil]
    rfl
  · obtain ⟨c, v, heq⟩ := List.exists_cons_of_ne_nil hnil
    have hstop := List.head_dropWhile_not (· ≠ ascii '=') hnil
    have hspace : ascii ' ' ∉ c :: v :=
      heq ▸ fun h => ht ((List.dropWhile_suffix _).subset h)
    simp only [heq, List.head_cons, decide_eq_false_iff_not, not_not] at hstop
    rw [heq, cmdlineParseValue, if_pos hstop, copyWhile_value fun h =>
      hspace (List.mem_cons_of_mem c h)]
    rfl

lemma cmdlineParseArg_fits (ht : ascii ' ' ∉ t) (hfits : TokenFits t) :
    cmdlineParseArg t = (tokenEntry t, []) := by
  have hkey : copyWhile isKeyByte 31 t = (tokenKey t, t.dropWhile (· ≠ ascii '=')) := by
    rw [copyWhile_eq, takeWhile_isKeyByte ht, List.take_of_length_le hfits.1, drop_tokenKey]
  simp only [cmdlineParseArg, hkey, cmdlineParseValue_eq ht, tokenEntry,
    List.take_of_length_le hfits.1, List.drop_of_length_le hfits.2]

/-- What does not fit is left to be parsed. -/
lemma cmdlineParseArg_not_fits (ht : ascii ' ' ∉ t) (hfits : ¬TokenFits t) :
    (cmdlineParseArg t).2 ≠ [] := by
  show (cmdlineParseValue (copyWhile isKeyByte 31 t).2).2 ≠ []
  rw [copyWhile_eq, takeWhile_isKeyByte ht]
  by_cases hkey : (tokenKey t).length ≤ 31
  · rw [List.take_of_length_le hkey, drop_tokenKey, cmdlineParseValue_eq ht]
    intro hnil
    exact hfits ⟨hkey, List.drop_eq_nil_iff.mp hnil⟩
  · -- the key goes on behind its first 31 bytes
    have hlong : 31 < (tokenKey t).length := by omega
    have hmem : (tokenKey t)[31] ∈ tokenKey t := List.getElem_mem hlong
    have hne : (tokenKey t)[31] ≠ ascii '=' := by simpa using List.mem_takeWhile_imp hmem
    have hdrop : t.drop 31 = (tokenKey t)[31] ::
        ((tokenKey t).drop 32 ++ t.dropWhile (· ≠ ascii '=')) := by
      have hsplit := List.takeWhile_append_dropWhile (p := (· ≠ ascii '=')) (l := t)
      conv_lhs => rw [← hsplit, List.drop_append_of_le_length (by rw [← tokenKey]; omega)]
      rw [← tokenKey, List.drop_eq_getElem_cons hlong]
      rfl
    rw [List.length_take, Nat.min_eq_left (by omega), hdrop, cmdlineParseValue, if_neg hne]
    exact List.cons_ne_nil _ _

lemma cmdlineEntries_fits (hne : t ≠ []) (ht : ascii ' ' ∉ t) (hfits : TokenFits t) :
    cmdlineEntries t = [tokenEntry t] := by
  have hskip : skipSpaces t = t := by simpa using @skipSpaces_append t [] hne ht
  rw [cmdlineEntries_cons (by rwa [hskip]), hskip, cmdlineParseArg_fits ht hfits,
    cmdlineEntries_nil rfl]

lemma cmdlineEntries_length_pos (hne : t ≠ []) (ht : ascii ' ' ∉ t) :
    0 < (cmdlineEntries t).length := by
  have hskip : skipSpaces t = t := by simpa using @skipSpaces_append t [] hne ht
  rw [cmdlineEntries_cons (by rwa [hskip])]
  exact Nat.succ_pos _

/-- A token that does not fit has two entries or more. -/
lemma cmdlineEntries_not_fits (hne : t ≠ []) (ht : ascii ' ' ∉ t) (hfits : ¬TokenFits t) :
    1 < (cmdlineEntries t).length := by
  have hskip : skipSpaces t = t := by simpa using @skipSpaces_append t [] hne ht
  have hpos := cmdlineEntries_length_pos (cmdlineParseArg_not_fits ht hfits)
    fun h => ht (cmdlineParseArg_suffix.subset h)
  rw [cmdlineEntries_cons (by rwa [hskip]), hskip, List.length_cons]
  omega

/-! ## Look-ups -/

/-- Look-ups compare keys, by way of their hashes. -/
def ArgEntry.Hashed (entry : ArgEntry) : Prop := entry.hash = hashFnv1a entry.key ∧ 0 ∉ entry.key

lemma find_entry (hreg : ∀ entry ∈ registry, entry.Hashed) (hkey : 0 ∉ key) {entry : ArgEntry}
    (hmem : entry ∈ registry) :
    (entry.hash = hashFnv1a key ∧ compareBytes entry.key key = 0) ↔ entry.key = key := by
  obtain ⟨hhash, hnul⟩ := hreg entry hmem
  rw [compareBytes_eq_zero_iff hnul hkey, hhash]
  exact and_iff_right_of_imp fun h => congrArg hashFnv1a h

lemma cmdlineGetString_eq (hreg : ∀ entry ∈ registry, entry.Hashed) (hkey : 0 ∉ key) :
    cmdlineGetString registry key =
      (registry.find? fun entry => entry.key = key).map ArgEntry.value := by
  have hfind : (registry.find? fun entry => entry.hash = hashFnv1a key ∧
      compareBytes entry.key key = 0) = registry.find? fun entry => entry.key = key :=
    List.find?_congr fun entry hmem => decide_eq_decide.mpr (find_entry hreg hkey hmem)
  rw [← hfind, List.find?_eq_bind_findIdx?_getElem?, Option.map_bind]
  rfl

lemma cmdlineHasKey_iff (hreg : ∀ entry ∈ registry, entry.Hashed) (hkey : 0 ∉ key) :
    cmdlineHasKey registry key ↔ ∃ entry ∈ registry, entry.key = key := by
  rw [cmdlineHasKey, cmdlineFind, List.findIdx?_isSome, List.any_eq_true]
  refine exists_congr fun entry => and_congr_right fun hmem => ?_
  rw [decide_eq_true_eq]
  exact find_entry hreg hkey hmem

/-- A token that fits gets an entry with the hash of its key. -/
lemma tokenEntry_hashed (hzero : 0 ∉ t) : (tokenEntry t).Hashed :=
  ⟨rfl, fun h => hzero ((List.takeWhile_sublist _).subset (List.mem_of_mem_take h))⟩

lemma cmdlineEntries_eq_map (hfits : ∀ t ∈ cmdTokens s, TokenFits t) :
    cmdlineEntries s = (cmdTokens s).map tokenEntry := by
  rw [cmdlineEntries_eq, ← List.flatMap_singleton' ((cmdTokens s).map tokenEntry), List.flatMap_map]
  refine List.flatMap_congr fun t ht => ?_
  obtain ⟨hne, hspace, -⟩ := mem_cmdTokens ht
  exact cmdlineEntries_fits hne hspace (hfits t ht)

/-- Tokens have one entry or more each, and if they have exactly one each, then they fit. -/
lemma fits_of_length {ts : List (List UInt8)} (hts : ∀ t ∈ ts, t ≠ [] ∧ ascii ' ' ∉ t) :
    ts.length ≤ (ts.flatMap cmdlineEntries).length ∧
      ((ts.flatMap cmdlineEntries).length = ts.length → ∀ t ∈ ts, TokenFits t) := by
  induction ts with
  | nil => exact ⟨Nat.le_refl _, fun _ t ht => absurd ht List.not_mem_nil⟩
  | cons t ts ih =>
    obtain ⟨hne, hspace⟩ := hts t List.mem_cons_self
    obtain ⟨hle, hfits⟩ := ih fun t ht => hts t (List.mem_cons_of_mem _ ht)
    have hpos := cmdlineEntries_length_pos hne hspace
    rw [List.flatMap_cons, List.length_append, List.length_cons]
    refine ⟨by omega, fun heq t' ht' => ?_⟩
    rcases List.mem_cons.mp ht' with rfl | ht'
    · by_contra hlong
      have := cmdlineEntries_not_fits hne hspace hlong
      omega
    · exact hfits (by omega) t' ht'

lemma cmdlineInit_eq : cmdlineInit [] (some s) =
    if (cmdlineEntries s).length ≤ cmdlineMaxArgs then some (cmdlineEntries s) else none := by
  by_cases hnil : s = []
  · rw [hnil, cmdlineEntries_nil rfl]
    rfl
  · exact (if_neg hnil).trans (cmdlineParse_eq (Nat.zero_le _))

/-- **Command lines.**  Of a command line of at most `CMDLINE_MAX_ARGS` tokens, the registry gets
exactly one entry for each token, in order, with the first 31 bytes of its key and the first 63
bytes of its value, and look-ups find the first token with the key, and no other keys, exactly if
the key of each token has at most 31 bytes and the value at most 63. -/
theorem cmdlineInit_iff (hzero : 0 ∉ s) (hmax : (cmdTokens s).length ≤ cmdlineMaxArgs) :
    (∃ registry, cmdlineInit [] (some s) = some registry ∧ FollowsTokens s registry) ↔
      ∀ t ∈ cmdTokens s, TokenFits t := by
  constructor
  · rintro ⟨registry, hinit, hregistry, -⟩
    rw [cmdlineInit_eq] at hinit
    split_ifs at hinit
    obtain rfl := Option.some.inj hinit
    have htokens : ∀ t ∈ cmdTokens s, t ≠ [] ∧ ascii ' ' ∉ t := fun t ht =>
      ⟨(mem_cmdTokens ht).1, (mem_cmdTokens ht).2.1⟩
    exact (fits_of_length htokens).2 (by rw [← cmdlineEntries_eq, hregistry, List.length_map])
  · intro hfits
    have hentries := cmdlineEntries_eq_map hfits
    have hreg : ∀ entry ∈ (cmdTokens s).map tokenEntry, entry.Hashed := by
      intro entry hentry
      obtain ⟨t, ht, rfl⟩ := List.mem_map.mp hentry
      exact tokenEntry_hashed fun h => hzero ((mem_cmdTokens ht).2.2 h)
    refine ⟨(cmdTokens s).map tokenEntry, ?_, rfl, fun key hkey => ?_, fun key hkey hhas => ?_⟩
    · rw [cmdlineInit_eq, hentries, List.length_map, if_pos hmax]
    · rw [cmdlineGetString_eq hreg hkey, List.find?_map, Option.map_map]
      rfl
    · obtain ⟨entry, hentry, hkey⟩ := (cmdlineHasKey_iff hreg hkey).mp hhas
      obtain ⟨t, ht, rfl⟩ := List.mem_map.mp hentry
      exact ⟨t, ht, hkey⟩

end

/-- Two arguments. -/
theorem cmdlineInit_twoArgs : ∃ registry, cmdlineInit [] (some (asciiString " quiet  maxcpus=1")) =
    some registry ∧ FollowsTokens (asciiString " quiet  maxcpus=1") registry :=
  (cmdlineInit_iff (by decide) (by decide)).mpr (by decide)

/-- A value of 63 bytes and more behind it, which becomes an argument of its own. -/
theorem cmdlineInit_longValue :
    0 ∉ asciiString "append=" ++ List.replicate 63 (ascii 'x') ++ asciiString "maxcpus=1" ∧
    (cmdTokens (asciiString "append=" ++ List.replicate 63 (ascii 'x') ++
      asciiString "maxcpus=1")).length ≤ cmdlineMaxArgs ∧
    ¬∃ registry, cmdlineInit [] (some (asciiString "append=" ++ List.replicate 63 (ascii 'x') ++
      asciiString "maxcpus=1")) = some registry ∧ FollowsTokens (asciiString "append=" ++
        List.replicate 63 (ascii 'x') ++ asciiString "maxcpus=1") registry := by
  refine ⟨by decide, by decide, ?_⟩
  rintro ⟨registry, hinit, -, -, hvisible⟩
  have hhas : ((cmdlineInit [] (some (asciiString "append=" ++ List.replicate 63 (ascii 'x') ++
      asciiString "maxcpus=1"))).all fun registry =>
        cmdlineHasKey registry (asciiString "maxcpus")) = true := by
    decide +kernel
  rw [hinit] at hhas
  exact absurd (hvisible (asciiString "maxcpus") (by decide) hhas) (by decide)

end Cuore

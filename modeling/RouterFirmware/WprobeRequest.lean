import RouterFirmware.ByteOrder
import RouterFirmware.Errno
import RouterFirmware.FirstAnswers
import RouterFirmware.ListHead

/-!
# Requesting the values of attributes

`wprobe_request_data` asks for the values of the attributes in a list. It moves
them to a list of its own first.
-/

namespace WprobeLib

open ListHead FirstAnswers List Option Function Errno

structure Value where
  union : List UInt8
  s : Int64
  ss : Int64
  avg : Float32
  stdev : Float32
  n : UInt32

def Value.zero : Value := ⟨replicate 8 0, 0, 0, 0, 0, 0⟩

structure Attribute where
  id : Int32
  type : Int32
  flags : UInt32
  val : Value

/-- **The memory**: list heads, and the attributes they are in. -/
structure Attrs where
  heads : Heads
  attr : ℕ → Attribute

/-- The payloads of an answer's attributes, by type. -/
abbrev Tb : Type := ℕ → Option (List UInt8)

/-! ## The handler -/

section Handler

variable (host : ByteOrder)

/-- `nla_get_u8` and so on, for a number of `w` bytes. -/
def nlaGet (w : ℕ) (payload : List UInt8) : ℕ := host.value (payload.take w)

/-- The bytes of the number a type of value announces. -/
def numberSize : ℕ → Option ℕ
  | 9 | 13 => some 1   -- WPROBE_VAL_S8, WPROBE_VAL_U8
  | 10 | 14 => some 2  -- WPROBE_VAL_S16, WPROBE_VAL_U16
  | 11 | 15 => some 4  -- WPROBE_VAL_S32, WPROBE_VAL_U32
  | 12 | 16 => some 8  -- WPROBE_VAL_S64, WPROBE_VAL_U64
  | _ => none

/-- The value that an answer announces by its type. -/
def announced (type : ℕ) (tb : Tb) : Option Value :=
  match numberSize type with
  | none => some .zero
  | some w => (tb type).map fun payload =>
    { Value.zero with union := host.bytes w (nlaGet host w payload) ++ replicate (8 - w) 0 }

def averages (val : Value) : Value :=
  if val.n = 0 then val
  else
    let avg := val.s.toFloat32 / val.n.toFloat32
    let stdev := (val.ss.toFloat32 / val.n.toFloat32 - avg * avg).toFloat.sqrt.toFloat32
    { val with
      avg := if avg.isNaN then 0 else avg
      stdev := if stdev.isNaN then 0 else stdev }

/-- The statistics of an answer, for attributes with `WPROBE_F_KEEPSTAT`. -/
def statistics (flags : UInt32) (tb : Tb) (val : Value) : Value :=
  if flags &&& 1 = 0 then val
  else
    let s := (tb 17).elim val.s fun p => (UInt64.ofNat (nlaGet host 8 p)).toInt64
    let ss := (tb 18).elim val.ss fun p => (UInt64.ofNat (nlaGet host 8 p)).toInt64
    let n := (tb 19).elim val.n fun p => UInt32.ofNat (nlaGet host 4 p)
    averages { val with s, ss, n }

/-- The value of an attribute after an answer of a type. -/
def answeredValue (attr : Attribute) (type : ℕ) (tb : Tb) : Option Value :=
  if Int32.ofNat type ≠ attr.type then some attr.val
  else if type < 8 ∨ 16 < type then some attr.val
  else (announced host type tb).map (statistics host attr.flags tb)

/-- The id in an answer that has a type as well. -/
def answeredId (tb : Tb) : Option Int32 :=
  match tb 4, tb 6 with
  | some id, some _ => some (UInt32.ofNat (nlaGet host 4 id)).toInt32
  | _, _ => none

def answeredType (tb : Tb) : ℕ := (tb 6).elim 0 (nlaGet host 1)

def saveAttrdataHandler (fuel list oldList : ℕ) (s : Attrs) (tb : Tb) : Option (Attrs × ℤ) :=
  match answeredId host tb with
  | none => some (s, -1)
  | some id =>
    (s.heads.find oldList (fun x => (s.attr x).id == id) fuel (s.heads.next oldList)).bind fun
    | none => some (s, -1)
    | some x =>
      let heads := s.heads.listDelInit x
      (answeredValue host (s.attr x) (answeredType host tb) tb).map fun val =>
        ({ heads := heads.listAddTail x list,
           attr := update s.attr x { s.attr x with val } }, 0)

end Handler

/-- What `wprobe_request_data` is called with, and what it meets on the way. -/
structure Request where
  /-- The heads of the two lists of attributes. -/
  globalAttr : ℕ
  linkAttr : ℕ
  /-- Whether there is an address: then it is about a link. -/
  addr : Bool
  /-- Whether a message can be allocated, and has room for the address. -/
  newMsg : Bool
  putAddr : Bool
  /-- What `send_msg` gives to the handler, and what it returns. -/
  answers : List Tb
  err : ℤ

namespace Request

def attrs (r : Request) : ℕ := if r.addr then r.linkAttr else r.globalAttr

def Sent (r : Request) : Prop := r.newMsg ∧ (r.addr → r.putAddr)

instance (r : Request) : Decidable r.Sent := inferInstanceAs (Decidable (_ ∧ _))

def arrived (r : Request) : List Tb := if r.Sent then r.answers else []

end Request

/-- **`wprobe_request_data`**, with the address of its own list head. -/
def wprobeRequestData (host : ByteOrder) (fuel : ℕ) (r : Request) (oldList : ℕ) (s : Attrs) :
    Option (Attrs × ℤ) :=
  if r.Sent then
    let heads := (s.heads.initListHead oldList).listSpliceInit r.attrs oldList
    (r.answers.foldlM
        (fun s tb => (saveAttrdataHandler host fuel r.attrs oldList s tb).map Prod.fst)
        { s with heads }).map
      fun s => ({ s with heads := s.heads.listSplice oldList (s.heads.prev r.attrs) }, r.err)
  else some (s, -ENOMEM)

/-! ## What an answer is for -/

section Answers

/-- The attribute an answer is for has its id. -/
def answersFor (host : ByteOrder) (attr : ℕ → Attribute) (tb : Tb) (x : ℕ) : Bool :=
  answeredId host tb == some (attr x).id

/-- **The number announced by the type is there.** -/
def Announces (host : ByteOrder) (tb : Tb) : Prop :=
  numberSize (answeredType host tb) = none ∨ (tb (answeredType host tb)).isSome

/-- Attributes that differ in their values only. -/
def SameAttrs (attr attr' : ℕ → Attribute) : Prop := ∀ x, ∃ val, attr' x = { attr x with val }

theorem sameAttrs_refl (attr : ℕ → Attribute) : SameAttrs attr attr := fun x => ⟨(attr x).val, rfl⟩

variable {attr : ℕ → Attribute} {s : Attrs}

theorem SameAttrs.update (h : SameAttrs attr s.attr) (x : ℕ)
    (val : Value) : SameAttrs attr (update s.attr x { s.attr x with val }) := by
  intro y
  by_cases hyx : y = x
  · obtain ⟨val', hval'⟩ := h x
    exact ⟨val, by rw [hyx, update_self, hval']⟩
  · rw [update_of_ne hyx]
    exact h y

theorem SameAttrs.id_eq (h : SameAttrs attr s.attr) (x : ℕ) : (s.attr x).id = (attr x).id := by
  obtain ⟨val, hval⟩ := h x
  rw [hval]

theorem answeredValue_isSome {host : ByteOrder} {tb : Tb} (h : Announces host tb)
    (attr : Attribute) : ∃ val, answeredValue host attr (answeredType host tb) tb = some val := by
  have hannounced : ∃ val, announced host (answeredType host tb) tb = some val := by
    unfold announced
    rcases h with hnone | hsome
    · exact ⟨.zero, by rw [hnone]⟩
    · obtain ⟨payload, hpayload⟩ := isSome_iff_exists.mp hsome
      split
      · exact ⟨_, rfl⟩
      · exact ⟨_, by rw [hpayload]; rfl⟩
  obtain ⟨val, hval⟩ := hannounced
  unfold answeredValue
  split
  · exact ⟨_, rfl⟩
  split
  · exact ⟨_, rfl⟩
  · exact ⟨_, by rw [hval]; rfl⟩

theorem saveAttrdataHandler_spec {host : ByteOrder} {tb : Tb}
    {fuel list oldList : ℕ} {done waiting : List ℕ} (htwo : s.heads.Two list done oldList waiting)
    (hsame : SameAttrs attr s.attr) (hfuel : waiting.length < fuel) (hnumber : Announces host tb) :
    ∃ s' ret, saveAttrdataHandler host fuel list oldList s tb = some (s', ret)
      ∧ s'.heads.Two list (answer (done, waiting) (answersFor host attr tb)).1 oldList
        (answer (done, waiting) (answersFor host attr tb)).2
      ∧ SameAttrs attr s'.attr := by
  unfold saveAttrdataHandler
  cases hid : answeredId host tb with
  | none =>
    have hnone : waiting.find? (answersFor host attr tb) = none := by
      simp [answersFor, hid]
    refine ⟨s, -1, rfl, ?_, hsame⟩
    rw [answer, hnone]
    exact htwo
  | some id =>
    have hfor : (fun x => (s.attr x).id == id) = answersFor host attr tb := by
      funext x
      rw [answersFor, hid, hsame.id_eq, some_beq_some]
      exact Bool.beq_comm
    simp only [htwo.second.find_eq _ hfuel, hfor, bind_some]
    rw [answer]
    cases hfind : waiting.find? (answersFor host attr tb) with
    | none => exact ⟨s, -1, rfl, htwo, hsame⟩
    | some x =>
      obtain ⟨hx, before, after, hsplit, hbefore⟩ := find?_eq_some_iff_append.mp hfind
      obtain ⟨val, hval⟩ := answeredValue_isSome hnumber (s.attr x)
      refine ⟨_, 0, congrArg (Option.map _) hval, ?_, hsame.update x val⟩
      have herase : waiting.eraseP (answersFor host attr tb) = before ++ after := by
        rw [hsplit, eraseP_append_right _ (by simpa using hbefore), eraseP_cons_of_pos hx]
      rw [herase]
      rw [hsplit] at htwo
      exact htwo.move

theorem foldlM_saveAttrdataHandler {fuel list oldList : ℕ}
    {done waiting : List ℕ} (host : ByteOrder) {answers : List Tb}
    (htwo : s.heads.Two list done oldList waiting) (hsame : SameAttrs attr s.attr)
    (hfuel : waiting.length < fuel) (hnumbers : ∀ tb ∈ answers, Announces host tb) :
    ∃ s', answers.foldlM
        (fun s tb => (saveAttrdataHandler host fuel list oldList s tb).map Prod.fst) s = some s'
      ∧ s'.heads.Two list ((answers.map (answersFor host attr)).foldl answer (done, waiting)).1
        oldList ((answers.map (answersFor host attr)).foldl answer (done, waiting)).2
      ∧ SameAttrs attr s'.attr := by
  induction answers generalizing s done waiting with
  | nil => exact ⟨s, rfl, htwo, hsame⟩
  | cons tb answers ih =>
    obtain ⟨s₁, ret, hcall, htwo₁, hsame₁⟩ :=
      saveAttrdataHandler_spec htwo hsame hfuel (hnumbers tb mem_cons_self)
    have hlength :
        (answer (done, waiting) (answersFor host attr tb)).2.length ≤ waiting.length := by
      unfold answer
      split
      · exact length_eraseP_le
      · exact Nat.le_refl _
    obtain ⟨s', hrest, htwo', hsame'⟩ := ih htwo₁ hsame₁ (Nat.lt_of_le_of_lt hlength hfuel)
      fun tb' htb' => hnumbers tb' (mem_cons_of_mem tb htb')
    refine ⟨s', ?_, htwo', hsame'⟩
    rw [foldlM_cons, hcall]
    exact hrest

end Answers

/-! ## The request -/

/-- **No attribute is lost.** After the request the list has the attributes it
had before: first those that were answered, in the order of their first
answers, then the others in the order they were in. -/
theorem wprobeRequestData_keeps (host : ByteOrder) (fuel : ℕ) (r : Request) (oldList : ℕ)
    (s : Attrs) (xs : List ℕ) (hlist : s.heads.Ring r.attrs xs) (hold : oldList ∉ r.attrs :: xs)
    (hids : (xs.map fun x => (s.attr x).id).Nodup) (hfuel : xs.length < fuel)
    (hnumbers : ∀ tb ∈ r.answers, Announces host tb) : ∃ s' answered others,
    wprobeRequestData host fuel r oldList s = some (s', if r.Sent then r.err else -ENOMEM)
      ∧ s'.heads.Ring r.attrs (answered ++ others)
      ∧ Answered (r.arrived.map (answersFor host s.attr)) xs (answered, others)
      ∧ SameAttrs s.attr s'.attr := by
  have hone : ∀ q ∈ r.arrived.map (answersFor host s.attr), ∀ x ∈ xs, ∀ y ∈ xs, q x → q y →
      x = y := by
    intro q hq x hx y hy hqx hqy
    obtain ⟨tb, -, rfl⟩ := mem_map.mp hq
    have hid : some (s.attr x).id = some (s.attr y).id :=
      (beq_iff_eq.mp hqx).symm.trans (beq_iff_eq.mp hqy)
    exact inj_on_of_nodup_map hids hx hy (some.inj hid)
  have hanswered := answered_foldl (nodup_cons.mp hlist.nodup).2 hone
  unfold wprobeRequestData
  by_cases hsent : r.Sent
  · rw [Request.arrived, if_pos hsent] at hanswered ⊢
    rw [if_pos hsent, if_pos hsent]
    obtain ⟨s₁, hrun, htwo, hsame⟩ := foldlM_saveAttrdataHandler host
      (s := { s with heads := (s.heads.initListHead oldList).listSpliceInit r.attrs oldList })
      (hlist.detach hold) (sameAttrs_refl s.attr) hfuel hnumbers
    exact ⟨_, _, _, congrArg (Option.map _) hrun, htwo.attach, hanswered, hsame⟩
  · rw [Request.arrived, if_neg hsent] at hanswered ⊢
    rw [if_neg hsent, if_neg hsent]
    exact ⟨s, [], xs, rfl, hlist, hanswered, sameAttrs_refl s.attr⟩

/-- A list with two attributes of eight bits. -/
def twoAttrs : Attrs where
  heads := (((⟨id, id⟩ : Heads).initListHead 1).listAddTail 10 1).listAddTail 20 1
  attr x := ⟨if x = 10 then 0 else 1, 13, 0, .zero⟩

/-- A request that is answered for the second attribute and for one that is
not there, until it fails. -/
def failingRequest : Request where
  globalAttr := 1
  linkAttr := 2
  addr := false
  newMsg := true
  putAddr := true
  answers := [fun t => if t = 4 then some [1, 0, 0, 0] else if t = 6 then some [13]
      else if t = 13 then some [42] else none,
    fun t => if t = 4 then some [9, 0, 0, 0] else if t = 6 then some [8] else none]
  err := -5

theorem ring_twoAttrs : twoAttrs.heads.Ring 1 [10, 20] :=
  ((Heads.ring_initListHead _ 1).listAddTail (x := 10) (by decide)).listAddTail (x := 20)
    (by decide)

/-- **Both attributes are there after the failure.** -/
theorem wprobeRequestData_keeps_twoAttrs :
    ∃ s', wprobeRequestData .little 3 failingRequest 5 twoAttrs = some (s', -5)
      ∧ s'.heads.Ring 1 [20, 10] := by
  obtain ⟨s', answered, others, hrun, hring, hanswered, -⟩ :=
    wprobeRequestData_keeps .little 3 failingRequest 5 twoAttrs [10, 20] ring_twoAttrs
      (by decide) (by decide) (by decide) (by
        intro tb htb
        rcases mem_cons.mp htb with rfl | htb
        · exact .inr rfl
        · exact .inl (by rw [mem_singleton.mp htb]; rfl))
  have hothers : others = [10] := hanswered.waiting.trans (by decide)
  have hperm : answered.Perm [20] := by
    have hall := hanswered.perm
    rw [hothers] at hall
    exact (perm_append_right_iff [10]).mp (hall.trans (.swap 20 10 []))
  rw [hothers, perm_singleton.mp hperm] at hring
  exact ⟨s', hrun, hring⟩

end WprobeLib

/-!
# Notices

Some faults in the data do not stop the work: a default takes the place of the faulty value and a
notice is given. Work that gives notices is written in `Noted`, which keeps them in the order in
which they were given, whether the work succeeds or fails.

* `Notice`: what a notice can be about, with its level and its text.
* `Noted`: an outcome together with the notices given on the way to it.
-/

namespace Bom

/-- How grave a notice is: a value was replaced, or a step was left out. -/
inductive NoticeLevel where
  | warn
  | error
  deriving DecidableEq, Repr

/-- What a notice is about. -/
inductive Notice where
  /-- a scrap percentage outside of the range from -100 to 100 -/
  | scrapOutOfRange
  /-- a missing quantity, or one that is not finite -/
  | quantityUnusable
  /-- an edge names a calculation and there is no calculator -/
  | calculatorMissing
  /-- the calculator gave no value -/
  | calculatorSilent
  /-- an order was refused -/
  | orderRefused
  /-- the link of an order to the sales order line was refused -/
  | fulfillmentRefused
  /-- the link between two orders was refused -/
  | precedenceRefused
  /-- a setting that cannot be read -/
  | settingMalformed
  /-- a default lead time that is negative or not finite -/
  | leadTimeInvalid
  /-- a greatest depth of zero -/
  | maxDepthZero
  deriving DecidableEq, Repr

namespace Notice

/-- The level of a notice. -/
def level : Notice → NoticeLevel
  | orderRefused => .error
  | fulfillmentRefused => .error
  | precedenceRefused => .error
  | _ => .warn

/-- The text of a notice. -/
def text : Notice → String
  | scrapOutOfRange => "损耗率超出有效范围 (-100, 100)，已忽略"
  | quantityUnusable => "BOM 用量无法解析，按 1 处理"
  | calculatorMissing => "未配置自定义用量计算器，沿用公式计算"
  | calculatorSilent => "自定义用量计算无返回值，沿用公式计算"
  | orderRefused => "生产订单创建失败"
  | fulfillmentRefused => "履约关联创建失败"
  | precedenceRefused => "订单前置关系创建失败"
  | settingMalformed => "配置值格式错误，使用默认值"
  | leadTimeInvalid => "默认提前期无效，使用默认值"
  | maxDepthZero => "最大层级不能为 0，使用默认值"

end Notice

/-- An outcome with the notices given on the way to it, the earliest first. -/
structure Noted (ε α : Type) where
  notices : List Notice
  outcome : Except ε α

namespace Noted

variable {ε ε' α β : Type}

/-- The value, without a notice. -/
def value (a : α) : Noted ε α := ⟨[], .ok a⟩

/-- The failure, without a notice. -/
def fail (e : ε) : Noted ε α := ⟨[], .error e⟩

/-- An outcome that gives no notice. -/
def lift (outcome : Except ε α) : Noted ε α := ⟨[], outcome⟩

/-- Gives notices. -/
def give (notices : List Notice) : Noted ε Unit := ⟨notices, .ok ()⟩

/-- Goes on with the value, if there is one, and keeps the notices of both parts. -/
def andThen (x : Noted ε α) (f : α → Noted ε β) : Noted ε β :=
  match x.outcome with
  | .error e => ⟨x.notices, .error e⟩
  | .ok a => ⟨x.notices ++ (f a).notices, (f a).outcome⟩

instance : Monad (Noted ε) where
  pure := value
  bind := andThen

instance : MonadExceptOf ε (Noted ε) where
  throw := fail
  tryCatch x handle :=
    match x.outcome with
    | .ok a => ⟨x.notices, .ok a⟩
    | .error e => ⟨x.notices ++ (handle e).notices, (handle e).outcome⟩

/-- Rewords the failure. -/
def mapError (f : ε → ε') (x : Noted ε α) : Noted ε' α :=
  ⟨x.notices, x.outcome.mapError f⟩

/-- Changes the value. -/
def mapValue (f : α → β) (x : Noted ε α) : Noted ε β :=
  ⟨x.notices, x.outcome.map f⟩

@[simp] theorem outcome_pure (a : α) : (pure a : Noted ε α).outcome = .ok a := rfl

@[simp] theorem outcome_lift (o : Except ε α) : (lift o).outcome = o := rfl

@[simp] theorem outcome_fail (e : ε) : (fail e : Noted ε α).outcome = .error e := rfl

@[simp] theorem outcome_give (ns : List Notice) : (give ns : Noted ε Unit).outcome = .ok () := rfl

/-- The outcome of two parts is that of the first and then the second, whatever notices they give.
-/
@[simp] theorem outcome_bind (x : Noted ε α) (f : α → Noted ε β) :
    (x >>= f).outcome = x.outcome.bind fun a => (f a).outcome := by
  show (andThen x f).outcome = _
  unfold andThen
  cases x.outcome <;> rfl

end Noted

end Bom

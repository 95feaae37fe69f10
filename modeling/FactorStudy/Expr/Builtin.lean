/-!
# The built-in functions

A function belongs to one of six families, and the family fixes what arguments it takes: how many
series, and whether a window follows them. A window is a whole number written in the text itself,
not a series, which is why the families with one are told apart from those without.
-/

namespace FactorStudy

/-- Functions that look back a fixed number of bars. A window of 0 looks at the bar itself. -/
inductive Shift where
  | delay | delta | returns | pctChange
deriving Repr, DecidableEq

/-- Statistics of a trailing window of one series. -/
inductive Rolling where
  | mean | sum | std | var | max | min | median | rank | skew | kurt | argmax | argmin | zscore
deriving Repr, DecidableEq

/-- Statistics of a trailing window of two series. -/
inductive Pairwise where
  | corr | cov
deriving Repr, DecidableEq

/-- Functions of the series as a whole. -/
inductive Transform where
  | winsorize | standardize | normalize | demean | rank
deriving Repr, DecidableEq

/-- Functions of one value at a time. -/
inductive Pointwise where
  | log | log10 | exp | sqrt | abs | sign
deriving Repr, DecidableEq

/-- Functions of two values at the same bar. -/
inductive Merge where
  | max | min | fillna
deriving Repr, DecidableEq

/-- A function that an expression can call. -/
inductive Builtin where
  | shift (f : Shift)
  | rolling (f : Rolling)
  | pairwise (f : Pairwise)
  | transform (f : Transform)
  | pointwise (f : Pointwise)
  | merge (f : Merge)
deriving Repr, DecidableEq

namespace Builtin

/-- The number of series arguments. -/
def seriesArity : Builtin → Nat
  | shift _ | rolling _ | transform _ | pointwise _ => 1
  | pairwise _ | merge _ => 2

/-- Whether a window follows the series arguments. -/
def hasWindow : Builtin → Bool
  | shift _ | rolling _ | pairwise _ => true
  | transform _ | pointwise _ | merge _ => false

/-- The number of arguments. -/
def arity (f : Builtin) : Nat := f.seriesArity + if f.hasWindow then 1 else 0

/-- Whether a window of 0 makes sense: a shift by nothing does, a statistic of nothing does not. -/
def allowsZeroWindow : Builtin → Bool
  | shift _ => true
  | _ => false

/-- The name under which a function is printed. -/
def name : Builtin → String
  | shift .delay => "ts_delay"
  | shift .delta => "ts_delta"
  | shift .returns => "ts_returns"
  | shift .pctChange => "ts_pct_change"
  | rolling .mean => "ts_mean"
  | rolling .sum => "ts_sum"
  | rolling .std => "ts_std"
  | rolling .var => "ts_var"
  | rolling .max => "ts_max"
  | rolling .min => "ts_min"
  | rolling .median => "ts_median"
  | rolling .rank => "ts_rank"
  | rolling .skew => "ts_skew"
  | rolling .kurt => "ts_kurt"
  | rolling .argmax => "ts_argmax"
  | rolling .argmin => "ts_argmin"
  | rolling .zscore => "ts_zscore"
  | pairwise .corr => "ts_corr"
  | pairwise .cov => "ts_cov"
  | transform .winsorize => "winsorize"
  | transform .standardize => "standardize"
  | transform .normalize => "normalize"
  | transform .demean => "demean"
  | transform .rank => "rank"
  | pointwise .log => "log"
  | pointwise .log10 => "log10"
  | pointwise .exp => "exp"
  | pointwise .sqrt => "sqrt"
  | pointwise .abs => "abs"
  | pointwise .sign => "sign"
  | merge .max => "max"
  | merge .min => "min"
  | merge .fillna => "fillna"

/-- One line of help. -/
def description : Builtin → String
  | shift .delay => "value n bars ago"
  | shift .delta => "x - ts_delay(x, n)"
  | shift .returns => "x / ts_delay(x, n) - 1"
  | shift .pctChange => "percent change over n bars"
  | rolling .mean => "rolling mean"
  | rolling .sum => "rolling sum"
  | rolling .std => "rolling sample standard deviation"
  | rolling .var => "rolling sample variance"
  | rolling .max => "rolling maximum"
  | rolling .min => "rolling minimum"
  | rolling .median => "rolling median"
  | rolling .rank => "percentile rank of the current value in the window"
  | rolling .skew => "rolling sample skewness"
  | rolling .kurt => "rolling sample excess kurtosis"
  | rolling .argmax => "offset of the window maximum"
  | rolling .argmin => "offset of the window minimum"
  | rolling .zscore => "(x - ts_mean) / ts_std"
  | pairwise .corr => "rolling Pearson correlation"
  | pairwise .cov => "rolling sample covariance"
  | transform .winsorize => "clip to the full-series 1st/99th percentiles"
  | transform .standardize => "full-series z-score"
  | transform .normalize => "full-series min-max scaling to [0, 1]"
  | transform .demean => "subtract the full-series mean"
  | transform .rank => "full-series percentile rank"
  | pointwise .log => "natural logarithm"
  | pointwise .log10 => "base-10 logarithm"
  | pointwise .exp => "exponential"
  | pointwise .sqrt => "square root"
  | pointwise .abs => "absolute value"
  | pointwise .sign => "sign (-1, 0, 1)"
  | merge .max => "elementwise maximum"
  | merge .min => "elementwise minimum"
  | merge .fillna => "replace undefined entries of x with y"

/-- Every function, in the order in which they are listed. -/
def all : List Builtin :=
  [.shift .delay, .shift .delta, .shift .returns, .shift .pctChange,
    .rolling .mean, .rolling .sum, .rolling .std, .rolling .var, .rolling .max, .rolling .min,
    .rolling .median, .rolling .rank, .rolling .skew, .rolling .kurt, .rolling .argmax,
    .rolling .argmin, .rolling .zscore,
    .pairwise .corr, .pairwise .cov,
    .transform .winsorize, .transform .standardize, .transform .normalize, .transform .demean,
    .transform .rank,
    .pointwise .log, .pointwise .log10, .pointwise .exp, .pointwise .sqrt, .pointwise .abs,
    .pointwise .sign,
    .merge .max, .merge .min, .merge .fillna]

/-- Second names, accepted when reading and never printed. -/
def aliases : List (String × Builtin) :=
  [("delay", .shift .delay), ("sma", .rolling .mean), ("stddev", .rolling .std),
    ("rolling_corr", .pairwise .corr), ("returns", .shift .returns)]

/-- Every name an expression can call, with the function it stands for. -/
def registry : List (String × Builtin) := all.map (fun f => (f.name, f)) ++ aliases

/-- The function a name stands for. -/
def named? (name : String) : Option Builtin := registry.lookup name

theorem named?_name (f : Builtin) : named? f.name = some f := by
  rcases f with f | f | f | f | f | f <;> cases f <;> decide

end Builtin

end FactorStudy

import ModuleScripts.Text.Basic

/-!
# The bundled generator runtime

The script that desugared generator and async functions call into.
-/

namespace ModuleScripts.Polyfill

/-- The lines of the generator runtime. -/
def runtimeLines : List String := [
  "/**",
  " * Compact generator-function runtime exposing `regeneratorRuntime`.",
  " *",
  " * Implements the helper API that desugared generator and async functions",
  " * call into: wrap, mark, isGeneratorFunction, awrap, async, AsyncIterator,",
  " * keys and values.",
  " */",
  "(function (global) \x7b",
  "  'use strict';",
  "",
  "  if (global.regeneratorRuntime) \x7b",
  "    return;",
  "  \x7d",
  "",
  "  var hasOwn = Object.prototype.hasOwnProperty;",
  "  var iteratorSymbol = typeof Symbol === 'function' && Symbol.iterator || '@@iterator';",
  "  var asyncIteratorSymbol = typeof Symbol === 'function' && Symbol.asyncIterator || '@@asyncIterator';",
  "  var toStringTagSymbol = typeof Symbol === 'function' && Symbol.toStringTag || '@@toStringTag';",
  "",
  "  var SUSPENDED_START = 'suspendedStart';",
  "  var SUSPENDED_YIELD = 'suspendedYield';",
  "  var EXECUTING = 'executing';",
  "  var COMPLETED = 'completed';",
  "  var CONTINUE = \x7b\x7d;",
  "",
  "  function Generator() \x7b\x7d",
  "  function GeneratorFunction() \x7b\x7d",
  "  function GeneratorFunctionPrototype() \x7b\x7d",
  "",
  "  var IteratorPrototype = \x7b\x7d;",
  "  IteratorPrototype[iteratorSymbol] = function () \x7b return this; \x7d;",
  "",
  "  var Gp = GeneratorFunctionPrototype.prototype = Generator.prototype = Object.create(IteratorPrototype);",
  "  GeneratorFunction.prototype = GeneratorFunctionPrototype;",
  "  GeneratorFunctionPrototype.constructor = GeneratorFunction;",
  "  GeneratorFunction.displayName = 'GeneratorFunction';",
  "  GeneratorFunctionPrototype[toStringTagSymbol] = 'GeneratorFunction';",
  "  Gp[toStringTagSymbol] = 'Generator';",
  "  Gp.toString = function () \x7b return '[object Generator]'; \x7d;",
  "",
  "  function tryCatch(fn, obj, arg) \x7b",
  "    try \x7b",
  "      return \x7btype: 'normal', arg: fn.call(obj, arg)\x7d;",
  "    \x7d catch (err) \x7b",
  "      return \x7btype: 'throw', arg: err\x7d;",
  "    \x7d",
  "  \x7d",
  "",
  "  function wrap(innerFn, outerFn, self, tryLocsList) \x7b",
  "    var protoGenerator = outerFn && outerFn.prototype instanceof Generator ? outerFn : Generator;",
  "    var generator = Object.create(protoGenerator.prototype);",
  "    var context = new Context(tryLocsList || []);",
  "    generator._invoke = makeInvokeMethod(innerFn, self, context);",
  "    return generator;",
  "  \x7d",
  "",
  "  ['next', 'throw', 'return'].forEach(function (method) \x7b",
  "    Gp[method] = function (arg) \x7b return this._invoke(method, arg); \x7d;",
  "  \x7d);",
  "",
  "  function makeInvokeMethod(innerFn, self, context) \x7b",
  "    var state = SUSPENDED_START;",
  "",
  "    return function invoke(method, arg) \x7b",
  "      if (state === EXECUTING) \x7b",
  "        throw new Error('Generator is already running');",
  "      \x7d",
  "      if (state === COMPLETED) \x7b",
  "        if (method === 'throw') \x7b",
  "          throw arg;",
  "        \x7d",
  "        return \x7bvalue: undefined, done: true\x7d;",
  "      \x7d",
  "",
  "      context.method = method;",
  "      context.arg = arg;",
  "",
  "      while (true) \x7b",
  "        var delegate = context.delegate;",
  "        if (delegate) \x7b",
  "          var delegateResult = maybeInvokeDelegate(delegate, context);",
  "          if (delegateResult) \x7b",
  "            if (delegateResult === CONTINUE) \x7b",
  "              continue;",
  "            \x7d",
  "            return delegateResult;",
  "          \x7d",
  "        \x7d",
  "",
  "        if (context.method === 'next') \x7b",
  "          context.sent = context._sent = context.arg;",
  "        \x7d else if (context.method === 'throw') \x7b",
  "          if (state === SUSPENDED_START) \x7b",
  "            state = COMPLETED;",
  "            throw context.arg;",
  "          \x7d",
  "          context.dispatchException(context.arg);",
  "        \x7d else if (context.method === 'return') \x7b",
  "          context.abrupt('return', context.arg);",
  "        \x7d",
  "",
  "        state = EXECUTING;",
  "        var record = tryCatch(innerFn, self, context);",
  "        if (record.type === 'normal') \x7b",
  "          state = context.done ? COMPLETED : SUSPENDED_YIELD;",
  "          if (record.arg === CONTINUE) \x7b",
  "            continue;",
  "          \x7d",
  "          return \x7bvalue: record.arg, done: context.done\x7d;",
  "        \x7d",
  "        state = COMPLETED;",
  "        context.method = 'throw';",
  "        context.arg = record.arg;",
  "      \x7d",
  "    \x7d;",
  "  \x7d",
  "",
  "  function maybeInvokeDelegate(delegate, context) \x7b",
  "    var method = delegate.iterator[context.method];",
  "    if (method === undefined) \x7b",
  "      context.delegate = null;",
  "      if (context.method === 'throw') \x7b",
  "        if (delegate.iterator['return']) \x7b",
  "          context.method = 'return';",
  "          context.arg = undefined;",
  "          maybeInvokeDelegate(delegate, context);",
  "          if (context.method === 'throw') \x7b",
  "            return CONTINUE;",
  "          \x7d",
  "        \x7d",
  "        context.method = 'throw';",
  "        context.arg = new TypeError(\"The iterator does not provide a 'throw' method\");",
  "      \x7d",
  "      return CONTINUE;",
  "    \x7d",
  "",
  "    var record = tryCatch(method, delegate.iterator, context.arg);",
  "    if (record.type === 'throw') \x7b",
  "      context.method = 'throw';",
  "      context.arg = record.arg;",
  "      context.delegate = null;",
  "      return CONTINUE;",
  "    \x7d",
  "",
  "    var info = record.arg;",
  "    if (!info) \x7b",
  "      context.method = 'throw';",
  "      context.arg = new TypeError('iterator result is not an object');",
  "      context.delegate = null;",
  "      return CONTINUE;",
  "    \x7d",
  "    if (info.done) \x7b",
  "      context[delegate.resultName] = info.value;",
  "      context.next = delegate.nextLoc;",
  "      if (context.method !== 'return') \x7b",
  "        context.method = 'next';",
  "        context.arg = undefined;",
  "      \x7d",
  "      context.delegate = null;",
  "      return CONTINUE;",
  "    \x7d",
  "    return info;",
  "  \x7d",
  "",
  "  function pushTryEntry(locs) \x7b",
  "    var entry = \x7btryLoc: locs[0]\x7d;",
  "    if (1 in locs) \x7b entry.catchLoc = locs[1]; \x7d",
  "    if (2 in locs) \x7b",
  "      entry.finallyLoc = locs[2];",
  "      entry.afterLoc = locs[3];",
  "    \x7d",
  "    this.tryEntries.push(entry);",
  "  \x7d",
  "",
  "  function resetTryEntry(entry) \x7b",
  "    var record = entry.completion || \x7b\x7d;",
  "    record.type = 'normal';",
  "    delete record.arg;",
  "    entry.completion = record;",
  "  \x7d",
  "",
  "  function Context(tryLocsList) \x7b",
  "    this.tryEntries = [\x7btryLoc: 'root'\x7d];",
  "    tryLocsList.forEach(pushTryEntry, this);",
  "    this.reset(true);",
  "  \x7d",
  "",
  "  Context.prototype = \x7b",
  "    constructor: Context,",
  "",
  "    reset: function (skipTempReset) \x7b",
  "      this.prev = 0;",
  "      this.next = 0;",
  "      this.sent = this._sent = undefined;",
  "      this.done = false;",
  "      this.delegate = null;",
  "      this.method = 'next';",
  "      this.arg = undefined;",
  "      this.tryEntries.forEach(resetTryEntry);",
  "      if (!skipTempReset) \x7b",
  "        for (var name in this) \x7b",
  "          if (name.charAt(0) === 't' && hasOwn.call(this, name) && !isNaN(+name.slice(1))) \x7b",
  "            this[name] = undefined;",
  "          \x7d",
  "        \x7d",
  "      \x7d",
  "    \x7d,",
  "",
  "    stop: function () \x7b",
  "      this.done = true;",
  "      var rootRecord = this.tryEntries[0].completion;",
  "      if (rootRecord.type === 'throw') \x7b",
  "        throw rootRecord.arg;",
  "      \x7d",
  "      return this.rval;",
  "    \x7d,",
  "",
  "    dispatchException: function (exception) \x7b",
  "      if (this.done) \x7b",
  "        throw exception;",
  "      \x7d",
  "      var context = this;",
  "      function handle(loc, caught) \x7b",
  "        record.type = 'throw';",
  "        record.arg = exception;",
  "        context.next = loc;",
  "        if (caught) \x7b",
  "          context.method = 'next';",
  "          context.arg = undefined;",
  "        \x7d",
  "        return !!caught;",
  "      \x7d",
  "",
  "      for (var i = this.tryEntries.length - 1; i >= 0; --i) \x7b",
  "        var entry = this.tryEntries[i];",
  "        var record = entry.completion;",
  "        if (entry.tryLoc === 'root') \x7b",
  "          return handle('end');",
  "        \x7d",
  "        if (entry.tryLoc <= this.prev) \x7b",
  "          var hasCatch = hasOwn.call(entry, 'catchLoc');",
  "          var hasFinally = hasOwn.call(entry, 'finallyLoc');",
  "          if (hasCatch && this.prev < entry.catchLoc) \x7b",
  "            return handle(entry.catchLoc, true);",
  "          \x7d",
  "          if (hasFinally && this.prev < entry.finallyLoc) \x7b",
  "            return handle(entry.finallyLoc);",
  "          \x7d",
  "        \x7d",
  "      \x7d",
  "    \x7d,",
  "",
  "    abrupt: function (type, arg) \x7b",
  "      var finallyEntry;",
  "      for (var i = this.tryEntries.length - 1; i >= 0; --i) \x7b",
  "        var entry = this.tryEntries[i];",
  "        if (entry.tryLoc <= this.prev && hasOwn.call(entry, 'finallyLoc') && this.prev < entry.finallyLoc) \x7b",
  "          finallyEntry = entry;",
  "          break;",
  "        \x7d",
  "      \x7d",
  "      if (finallyEntry && (type === 'break' || type === 'continue') &&",
  "          finallyEntry.tryLoc <= arg && arg <= finallyEntry.finallyLoc) \x7b",
  "        finallyEntry = null;",
  "      \x7d",
  "      var record = finallyEntry ? finallyEntry.completion : \x7b\x7d;",
  "      record.type = type;",
  "      record.arg = arg;",
  "      if (finallyEntry) \x7b",
  "        this.method = 'next';",
  "        this.next = finallyEntry.finallyLoc;",
  "        return CONTINUE;",
  "      \x7d",
  "      return this.complete(record);",
  "    \x7d,",
  "",
  "    complete: function (record, afterLoc) \x7b",
  "      if (record.type === 'throw') \x7b",
  "        throw record.arg;",
  "      \x7d",
  "      if (record.type === 'break' || record.type === 'continue') \x7b",
  "        this.next = record.arg;",
  "      \x7d else if (record.type === 'return') \x7b",
  "        this.rval = this.arg = record.arg;",
  "        this.method = 'return';",
  "        this.next = 'end';",
  "      \x7d else if (record.type === 'normal' && afterLoc) \x7b",
  "        this.next = afterLoc;",
  "      \x7d",
  "      return CONTINUE;",
  "    \x7d,",
  "",
  "    finish: function (finallyLoc) \x7b",
  "      for (var i = this.tryEntries.length - 1; i >= 0; --i) \x7b",
  "        var entry = this.tryEntries[i];",
  "        if (entry.finallyLoc === finallyLoc) \x7b",
  "          this.complete(entry.completion, entry.afterLoc);",
  "          resetTryEntry(entry);",
  "          return CONTINUE;",
  "        \x7d",
  "      \x7d",
  "    \x7d,",
  "",
  "    'catch': function (tryLoc) \x7b",
  "      for (var i = this.tryEntries.length - 1; i >= 0; --i) \x7b",
  "        var entry = this.tryEntries[i];",
  "        if (entry.tryLoc === tryLoc) \x7b",
  "          var record = entry.completion;",
  "          var thrown;",
  "          if (record.type === 'throw') \x7b",
  "            thrown = record.arg;",
  "            resetTryEntry(entry);",
  "          \x7d",
  "          return thrown;",
  "        \x7d",
  "      \x7d",
  "      throw new Error('illegal catch attempt');",
  "    \x7d,",
  "",
  "    delegateYield: function (iterable, resultName, nextLoc) \x7b",
  "      this.delegate = \x7biterator: values(iterable), resultName: resultName, nextLoc: nextLoc\x7d;",
  "      if (this.method === 'next') \x7b",
  "        this.arg = undefined;",
  "      \x7d",
  "      return CONTINUE;",
  "    \x7d",
  "  \x7d;",
  "",
  "  function isGeneratorFunction(genFun) \x7b",
  "    var ctor = typeof genFun === 'function' && genFun.constructor;",
  "    return ctor ? ctor === GeneratorFunction || (ctor.displayName || ctor.name) === 'GeneratorFunction' : false;",
  "  \x7d",
  "",
  "  function mark(genFun) \x7b",
  "    if (Object.setPrototypeOf) \x7b",
  "      Object.setPrototypeOf(genFun, GeneratorFunctionPrototype);",
  "    \x7d else \x7b",
  "      genFun.__proto__ = GeneratorFunctionPrototype;",
  "      genFun[toStringTagSymbol] = 'GeneratorFunction';",
  "    \x7d",
  "    genFun.prototype = Object.create(Gp);",
  "    return genFun;",
  "  \x7d",
  "",
  "  function awrap(arg) \x7b",
  "    return \x7b__await: arg\x7d;",
  "  \x7d",
  "",
  "  function AsyncIterator(generator, PromiseImpl) \x7b",
  "    var previousPromise;",
  "",
  "    function invoke(method, arg, resolve, reject) \x7b",
  "      var record = tryCatch(generator[method], generator, arg);",
  "      if (record.type === 'throw') \x7b",
  "        reject(record.arg);",
  "        return;",
  "      \x7d",
  "      var result = record.arg;",
  "      var value = result.value;",
  "      if (value && typeof value === 'object' && hasOwn.call(value, '__await')) \x7b",
  "        PromiseImpl.resolve(value.__await).then(function (v) \x7b",
  "          invoke('next', v, resolve, reject);",
  "        \x7d, function (err) \x7b",
  "          invoke('throw', err, resolve, reject);",
  "        \x7d);",
  "        return;",
  "      \x7d",
  "      PromiseImpl.resolve(value).then(function (unwrapped) \x7b",
  "        result.value = unwrapped;",
  "        resolve(result);",
  "      \x7d, function (err) \x7b",
  "        invoke('throw', err, resolve, reject);",
  "      \x7d);",
  "    \x7d",
  "",
  "    this._invoke = function (method, arg) \x7b",
  "      function callInvokeWithMethodAndArg() \x7b",
  "        return new PromiseImpl(function (resolve, reject) \x7b",
  "          invoke(method, arg, resolve, reject);",
  "        \x7d);",
  "      \x7d",
  "      previousPromise = previousPromise ?",
  "        previousPromise.then(callInvokeWithMethodAndArg, callInvokeWithMethodAndArg) :",
  "        callInvokeWithMethodAndArg();",
  "      return previousPromise;",
  "    \x7d;",
  "  \x7d",
  "",
  "  ['next', 'throw', 'return'].forEach(function (method) \x7b",
  "    AsyncIterator.prototype[method] = function (arg) \x7b return this._invoke(method, arg); \x7d;",
  "  \x7d);",
  "  AsyncIterator.prototype[asyncIteratorSymbol] = function () \x7b return this; \x7d;",
  "",
  "  function async(innerFn, outerFn, self, tryLocsList, PromiseImpl) \x7b",
  "    if (PromiseImpl === undefined) \x7b",
  "      PromiseImpl = Promise;",
  "    \x7d",
  "    var iter = new AsyncIterator(wrap(innerFn, outerFn, self, tryLocsList), PromiseImpl);",
  "    return isGeneratorFunction(outerFn) ? iter : iter.next().then(function (result) \x7b",
  "      return result.done ? result.value : iter.next();",
  "    \x7d);",
  "  \x7d",
  "",
  "  function keys(object) \x7b",
  "    var names = [];",
  "    for (var key in object) \x7b",
  "      names.push(key);",
  "    \x7d",
  "    names.reverse();",
  "    return function next() \x7b",
  "      while (names.length) \x7b",
  "        var key = names.pop();",
  "        if (key in object) \x7b",
  "          next.value = key;",
  "          next.done = false;",
  "          return next;",
  "        \x7d",
  "      \x7d",
  "      next.done = true;",
  "      return next;",
  "    \x7d;",
  "  \x7d",
  "",
  "  function values(iterable) \x7b",
  "    if (iterable) \x7b",
  "      var iteratorMethod = iterable[iteratorSymbol];",
  "      if (iteratorMethod) \x7b",
  "        return iteratorMethod.call(iterable);",
  "      \x7d",
  "      if (typeof iterable.next === 'function') \x7b",
  "        return iterable;",
  "      \x7d",
  "      if (!isNaN(iterable.length)) \x7b",
  "        var i = -1;",
  "        var next = function next() \x7b",
  "          while (++i < iterable.length) \x7b",
  "            if (hasOwn.call(iterable, i)) \x7b",
  "              next.value = iterable[i];",
  "              next.done = false;",
  "              return next;",
  "            \x7d",
  "          \x7d",
  "          next.value = undefined;",
  "          next.done = true;",
  "          return next;",
  "        \x7d;",
  "        return next.next = next;",
  "      \x7d",
  "    \x7d",
  "    return \x7bnext: function () \x7b return \x7bvalue: undefined, done: true\x7d; \x7d\x7d;",
  "  \x7d",
  "",
  "  global.regeneratorRuntime = \x7b",
  "    wrap: wrap,",
  "    isGeneratorFunction: isGeneratorFunction,",
  "    mark: mark,",
  "    awrap: awrap,",
  "    AsyncIterator: AsyncIterator,",
  "    async: async,",
  "    keys: keys,",
  "    values: values",
  "  \x7d;",
  "\x7d)(typeof globalThis === 'object' ? globalThis : this);"]

/-- The bundled source, in which every line ends with a line feed. -/
def runtimeSource : Text := runtimeLines.flatMap fun line => line.toList ++ ['\n']

end ModuleScripts.Polyfill
